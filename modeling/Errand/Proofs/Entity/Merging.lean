/-
  Errand.Proofs.Entity.Merging — records that are written again.

  A table has one record to a key. A record is written where its key is found, and merges
  with the one that is there, or at the end (`Merging.put`). Each field merges by a rule of
  its own: it stays, is written over, is taken if it is given, adds up, or is written property
  by property. The values of a second pass go through the same changes once more, so nothing
  can be said of a single write; but all these rules end a second pass of the same values
  where the first one ended (`Settles`), and so does a table (`Merging.putAll_again`).
-/

import Errand.Proofs.Entity.Loaded
import Mathlib.Data.List.Induction

namespace Errand
variable {α β ε κ : Type}

/-! ## How a field merges -/

/-- A second pass of the same values ends where the first one ended. -/
def Settles (f : α → ε → α) : Prop := ∀ (es : List ε) (x : α), es.foldl f (es.foldl f x) = es.foldl f x

theorem settles_overwrite (g : ε → α) : Settles fun _ e => g e := by
  intro es x
  induction es using List.reverseRecOn with
  | nil => rfl
  | append_singleton es e _ => simp

theorem settles_given (g : ε → Option β) : Settles fun x e => (g e).or x := by
  have hfold (es : List ε) (x : Option β) :
      es.foldl (fun x e => (g e).or x) x = (es.foldl (fun x e => (g e).or x) none).or x := by
    induction es generalizing x with
    | nil => rfl
    | cons e es ih => rw [List.foldl_cons, List.foldl_cons, ih, ih ((g e).or none), Option.or_none, Option.or_assoc]
  intro es x
  rw [hfold es (es.foldl _ x), hfold es x, ← Option.or_assoc, Option.or_self]

theorem settles_or (g : ε → Bool) : Settles fun b e => b || g e := by
  have hfold (es : List ε) (b : Bool) : es.foldl (fun b e => b || g e) b = (b || es.any g) := by
    induction es generalizing b with
    | nil => exact (Bool.or_false b).symm
    | cons e es ih => rw [List.foldl_cons, ih, List.any_cons, Bool.or_assoc]
  intro es b
  rw [hfold, hfold, Bool.or_assoc, Bool.or_self]

/-! ## Tables -/

/-- How the records of a table are told apart, and how one merges with another of its key. -/
structure Merging (α κ : Type) where
  key : α → κ
  merge : α → α → α
  key_merge : ∀ x e, key (merge x e) = key x
  settles : Settles merge

namespace Merging
variable (M : Merging α κ)

theorem key_foldl_merge (es : List α) (x : α) : M.key (es.foldl M.merge x) = M.key x := by
  induction es generalizing x with
  | nil => rfl
  | cons e es ih => rw [List.foldl_cons, ih, M.key_merge]

variable [DecidableEq κ]

/-- A table with one more record written into it. -/
def put : List α → α → List α
  | [], e => [e]
  | x :: l, e => if M.key x = M.key e then M.merge x e :: l else x :: put l e

/-- The place of the first record of a key. -/
def place? (k : κ) (l : List α) : Option Nat := l.findIdx? fun x => decide (M.key x = k)

theorem place?_eq {k : κ} {p : α → Bool} (hp : ∀ x, p x = true ↔ M.key x = k) (l : List α) :
    l.findIdx? p = M.place? k l := by
  have : p = fun x => decide (M.key x = k) := funext fun x => by rw [Bool.eq_iff_iff, hp, decide_eq_true_iff]
  rw [this, place?]

theorem place?_cons (k : κ) (x : α) (l : List α) :
    M.place? k (x :: l) = if M.key x = k then some 0 else (M.place? k l).map (· + 1) := by
  rw [place?, List.findIdx?_cons]
  by_cases hx : M.key x = k <;> simp [hx, place?]

theorem put_eq (l : List α) (e : α) :
    M.put l e = (M.place? (M.key e) l).elim (l ++ [e]) fun i => l.modify i (M.merge · e) := by
  induction l with
  | nil => rfl
  | cons x l ih =>
    rw [put, place?_cons]
    by_cases hx : M.key x = M.key e
    · rw [if_pos hx, if_pos hx]
      rfl
    · rw [if_neg hx, if_neg hx, ih]
      cases M.place? (M.key e) l <;> rfl

/-- A key that has a place keeps it. -/
theorem place?_put {k : κ} {i : Nat} {l : List α} (h : M.place? k l = some i) (e : α) :
    M.place? k (M.put l e) = some i := by
  induction l generalizing i with
  | nil => cases h
  | cons x l ih =>
    rw [place?_cons] at h
    rw [put]
    by_cases hx : M.key x = k
    · rw [if_pos hx] at h
      split
      · rw [place?_cons, M.key_merge, if_pos hx, h]
      · rw [place?_cons, if_pos hx, h]
    · rw [if_neg hx] at h
      obtain ⟨j, hj, hi⟩ := Option.map_eq_some_iff.mp h
      split
      · rw [place?_cons, M.key_merge, if_neg hx, hj, Option.map_some, hi]
      · rw [place?_cons, if_neg hx, ih hj, Option.map_some, hi]

/-- The key of what is written has a place then: the one it had, or the last one. -/
theorem place?_put_self (l : List α) (e : α) :
    M.place? (M.key e) (M.put l e) = some ((M.place? (M.key e) l).getD l.length) := by
  induction l with
  | nil => rw [put, place?_cons, if_pos rfl, place?, List.findIdx?_nil, Option.getD_none, List.length_nil]
  | cons x l ih =>
    rw [put, place?_cons]
    by_cases hx : M.key x = M.key e
    · rw [if_pos hx, if_pos hx, place?_cons, M.key_merge, if_pos hx, Option.getD_some]
    · rw [if_neg hx, if_neg hx, place?_cons, if_neg hx, ih]
      cases M.place? (M.key e) l <;> rfl

theorem place?_putAll {k : κ} {i : Nat} {l : List α} (h : M.place? k l = some i) (es : List α) :
    M.place? k (es.foldl M.put l) = some i := by
  induction es generalizing l with
  | nil => exact h
  | cons e es ih => exact ih (M.place?_put h e)

theorem nodup_put {l : List α} (hl : (l.map M.key).Nodup) (e : α) : ((M.put l e).map M.key).Nodup := by
  rw [put_eq]
  refine (putAt_of_findIdx? (fun x => ?_) e (M.merge · e) l).nodup rfl (fun x => M.key_merge x e) hl
  exact decide_eq_true_iff

/-! ## The second pass -/

/-- What is written merges with the first record if it has its key, and goes by it if not. -/
theorem putAll_cons (x : α) (l es : List α) :
    es.foldl M.put (x :: l) = (es.filter fun e => M.key e = M.key x).foldl M.merge x ::
      (es.filter fun e => M.key e ≠ M.key x).foldl M.put l := by
  induction es generalizing x l with
  | nil => rfl
  | cons e es ih =>
    rw [List.foldl_cons, put]
    by_cases he : M.key e = M.key x
    · rw [if_pos he.symm, ih, M.key_merge, List.filter_cons_of_pos (by simpa using he),
        List.filter_cons_of_neg (by simpa using he)]
      rfl
    · rw [if_neg (Ne.symm he), ih, List.filter_cons_of_neg (by simpa using he), List.filter_cons_of_pos (by simpa using he)]
      rfl

/-- A new record begins as one that was merged with itself, so it has been through all that a
    second pass brings. -/
theorem putAll_nil_again : ∀ (es : List α), (∀ e ∈ es, M.merge e e = e) →
    es.foldl M.put (es.foldl M.put []) = es.foldl M.put []
  | [], _ => rfl
  | e :: es, hself => by
    have hother : ∀ o ∈ es.filter (fun o => M.key o ≠ M.key e), M.merge o o = o :=
      fun o ho => hself o (List.mem_cons_of_mem _ (List.mem_filter.mp ho).1)
    have hrest := putAll_nil_again (es.filter fun o => M.key o ≠ M.key e) hother
    have hfirst : (e :: es).foldl M.put [] = (es.filter fun o => M.key o = M.key e).foldl M.merge e ::
        (es.filter fun o => M.key o ≠ M.key e).foldl M.put [] := M.putAll_cons e [] es
    have hmerged : (es.filter fun o => M.key o = M.key e).foldl M.merge e =
        (e :: es.filter fun o => M.key o = M.key e).foldl M.merge e := by
      rw [List.foldl_cons, hself e List.mem_cons_self]
    rw [hfirst, putAll_cons, key_foldl_merge, List.filter_cons_of_pos (by simp), List.filter_cons_of_neg (by simp), hrest,
      hmerged, M.settles]
termination_by es => es.length
decreasing_by exact Nat.lt_succ_of_le (List.length_filter_le _ es)

/-- A second pass leaves a table as it is, whatever was in it at first. -/
theorem putAll_again {es : List α} (hself : ∀ e ∈ es, M.merge e e = e) (l : List α) :
    es.foldl M.put (es.foldl M.put l) = es.foldl M.put l := by
  induction l generalizing es with
  | nil => exact M.putAll_nil_again es hself
  | cons x l ih =>
    rw [putAll_cons, putAll_cons, key_foldl_merge, M.settles, ih fun e he => hself e (List.mem_filter.mp he).1]

end Merging

/-! ## Free properties -/

namespace Properties

/-- A property keeps its place and takes the new value. -/
def merging : Merging (Text × Value) Text where
  key := Prod.fst
  merge p e := (p.1, e.2)
  key_merge _ _ := rfl
  settles := by
    have hfold (es : List (Text × Value)) (p : Text × Value) :
        es.foldl (fun p e => (p.1, e.2)) p = (p.1, es.foldl (fun _ e => e.2) p.2) := by
      induction es generalizing p with
      | nil => rfl
      | cons e es ih => exact ih _
    intro es p
    rw [hfold, hfold, settles_overwrite Prod.snd]

theorem insert_eq_put (name : Text) (value : Value) (ps : Properties) : insert name value ps = merging.put ps (name, value) := by
  induction ps with
  | nil => rfl
  | cons p ps ih => rw [insert, Merging.put, ih]; rfl

theorem update_eq_putAll (ps more : Properties) : ps.update more = more.foldl merging.put ps := by
  have hinsert : (fun (acc : Properties) (p : Text × Value) => insert p.1 p.2 acc) = merging.put :=
    funext fun acc => funext fun p => insert_eq_put p.1 p.2 acc
  rw [update, ← hinsert]

theorem update_again (ps more : Properties) : (ps.update more).update more = ps.update more := by
  simp only [update_eq_putAll]
  exact merging.putAll_again (fun _ _ => rfl) ps

theorem settles_update (g : ε → Properties) : Settles fun ps e => Properties.update ps (g e) := by
  have hfold (es : List ε) (ps : Properties) : es.foldl (fun ps e => ps.update (g e)) ps = ps.update (es.flatMap g) := by
    rw [update, List.foldl_flatMap]
    rfl
  intro es ps
  rw [hfold, hfold, update_again]

/-- No property is there twice. -/
def IsDistinct (ps : Properties) : Prop := (ps.map Prod.fst).Nodup

theorem isDistinct_nil : IsDistinct [] := List.nodup_nil

theorem IsDistinct.insert {ps : Properties} (h : ps.IsDistinct) (name : Text) (value : Value) :
    (insert name value ps).IsDistinct := by
  rw [insert_eq_put]
  exact merging.nodup_put h (name, value)

theorem IsDistinct.update_self {ps : Properties} (h : ps.IsDistinct) : ps.update ps = ps := by
  rw [update_eq_putAll]
  induction ps with
  | nil => rfl
  | cons p ps ih =>
    obtain ⟨hp, hps⟩ := List.nodup_cons.mp (show (p.1 :: ps.map Prod.fst).Nodup from h)
    have hnew : ∀ e ∈ ps, merging.key e ≠ merging.key p := by
      intro e he hkey
      have hmem : merging.key e ∈ ps.map Prod.fst := List.mem_map_of_mem he
      rw [hkey] at hmem
      exact hp hmem
    rw [Merging.putAll_cons, List.filter_cons_of_pos (by simp), List.filter_cons_of_neg (by simp),
      List.filter_eq_nil_iff.mpr fun e he => by simpa using hnew e he,
      List.filter_eq_self.mpr fun e he => by simpa using hnew e he, ih hps]
    rfl

end Properties

/-! ## Records -/

/-- A room keeps its name. -/
def Room.merging : Merging Room Name where
  key r := r.name.lower
  merge r e := { r with properties := r.properties.update e.properties }
  key_merge _ _ := rfl
  settles := by
    have hfold (es : List Room) (r : Room) :
        es.foldl (fun r e => { r with properties := r.properties.update e.properties }) r =
          ⟨r.name, es.foldl (fun ps e => ps.update e.properties) r.properties⟩ := by
      induction es generalizing r with
      | nil => rfl
      | cons e es ih => exact ih _
    intro es r
    rw [hfold, hfold, Properties.settles_update Room.properties]

theorem Room.merge_self {r : Room} (h : r.properties.IsDistinct) : Room.merging.merge r r = r := by
  change ({ r with properties := r.properties.update r.properties } : Room) = r
  rw [h.update_self]

/-- A location keeps its name and its room, and gains roles. -/
def Location.merging : Merging Location (Name × Option Nat) where
  key l := (l.name.lower, l.room)
  merge l e := { l with
    isPlacement := l.isPlacement || e.isPlacement
    isBeacon := l.isBeacon || e.isBeacon
    properties := l.properties.update e.properties }
  key_merge _ _ := rfl
  settles := by
    have hfold (es : List Location) (l : Location) :
        es.foldl (fun l e => { l with
          isPlacement := l.isPlacement || e.isPlacement
          isBeacon := l.isBeacon || e.isBeacon
          properties := l.properties.update e.properties }) l =
          ⟨l.name, l.room, es.foldl (fun b e => b || e.isPlacement) l.isPlacement,
            es.foldl (fun b e => b || e.isBeacon) l.isBeacon,
            es.foldl (fun ps e => ps.update e.properties) l.properties⟩ := by
      induction es generalizing l with
      | nil => rfl
      | cons e es ih => exact ih _
    intro es l
    rw [hfold, hfold, settles_or Location.isPlacement, settles_or Location.isBeacon,
      Properties.settles_update Location.properties]

theorem Location.merge_self {l : Location} (h : l.properties.IsDistinct) : Location.merging.merge l l = l := by
  change ({ l with
    isPlacement := l.isPlacement || l.isPlacement
    isBeacon := l.isBeacon || l.isBeacon
    properties := l.properties.update l.properties } : Location) = l
  rw [h.update_self, Bool.or_self, Bool.or_self]

/-- A category keeps its name, and its location unless another one is given. -/
def Category.merging : Merging Category Name where
  key c := c.name.lower
  merge c e := { c with
    location := e.location.or c.location
    properties := c.properties.update e.properties }
  key_merge _ _ := rfl
  settles := by
    have hfold (es : List Category) (c : Category) :
        es.foldl (fun c e => { c with
          location := e.location.or c.location
          properties := c.properties.update e.properties }) c =
          ⟨c.name, es.foldl (fun place e => e.location.or place) c.location,
            es.foldl (fun ps e => ps.update e.properties) c.properties⟩ := by
      induction es generalizing c with
      | nil => rfl
      | cons e es ih => exact ih _
    intro es c
    rw [hfold, hfold, settles_given Category.location, Properties.settles_update Category.properties]

theorem Category.merge_self {c : Category} (h : c.properties.IsDistinct) : Category.merging.merge c c = c := by
  change ({ c with
    location := c.location.or c.location
    properties := c.properties.update c.properties } : Category) = c
  rw [h.update_self, Option.or_self]

/-- An object keeps its name, and its category unless another one is given. -/
def Object.merging : Merging Object Name where
  key o := o.name.lower
  merge o e := { o with
    kind := e.kind
    tier := e.tier
    category := e.category.or o.category
    properties := o.properties.update e.properties }
  key_merge _ _ := rfl
  settles := by
    have hfold (es : List Object) (o : Object) :
        es.foldl (fun o e => { o with
          kind := e.kind
          tier := e.tier
          category := e.category.or o.category
          properties := o.properties.update e.properties }) o =
          ⟨o.name, es.foldl (fun _ e => e.kind) o.kind, es.foldl (fun _ e => e.tier) o.tier,
            es.foldl (fun place e => e.category.or place) o.category,
            es.foldl (fun ps e => ps.update e.properties) o.properties⟩ := by
      induction es generalizing o with
      | nil => rfl
      | cons e es ih => exact ih _
    intro es o
    rw [hfold, hfold, settles_overwrite Object.kind, settles_overwrite Object.tier, settles_given Object.category,
      Properties.settles_update Object.properties]

theorem Object.merge_self {o : Object} (h : o.properties.IsDistinct) : Object.merging.merge o o = o := by
  change ({ o with
    category := o.category.or o.category
    properties := o.properties.update o.properties } : Object) = o
  rw [h.update_self, Option.or_self]

end Errand
