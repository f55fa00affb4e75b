/-
  Errand.Proofs.Task.Hiding — what a question mark behind a name changes.

  The wildcards of the sentence ask for the same with it and without it, for what is to be
  hidden is none of what they ask (`Occurrence.asked`). Groups are bound by what their members
  ask for and by nothing else (`bindAll_congr`). So the work is the same up to the tokens, and
  there the question mark concerns one token: that of its own wildcard or of the one that this
  is nested in (`task_hides`).
-/

import Errand.Proofs.Task.Weaving
import Errand.Proofs.Wildcard.Covering

namespace Errand

/-! ## Groups -/

namespace Group

/-- The group of what its members ask for. -/
def asked (g : Group) : Group := ⟨g.first.asked, g.others.map Occurrence.asked⟩

variable (g : Group)

theorem members_asked : g.asked.members = g.members.map Occurrence.asked := rfl

@[simp] theorem keycode_asked : g.asked.keycode = g.keycode := rfl

@[simp] theorem name_asked : g.asked.name = g.name := rfl

@[simp] theorem clauses_asked : g.asked.clauses = g.clauses := by
  rw [clauses, members_asked, List.filterMap_map]
  rfl

@[simp] theorem subtype_asked : g.asked.subtype = g.subtype := by
  rw [subtype, subtypes, members_asked, List.filterMap_map]
  rfl

@[simp] theorem references_asked : g.asked.references = g.references := by
  rw [references, clause, clauses_asked]
  rfl

theorem insert_asked (w : Occurrence) (gs : List Group) : insert w.asked (gs.map asked) = (insert w gs).map asked := by
  induction gs with
  | nil => rfl
  | cons g gs ih =>
    rw [List.map_cons, insert, insert, add?, add?]
    have hkeycode : w.asked.keycode = w.keycode := rfl
    rw [hkeycode, keycode_asked]
    by_cases h : w.keycode = g.keycode
    · rw [if_pos h, if_pos h]
      simp [asked]
    · rw [if_neg h, if_neg h]
      simp only [List.map_cons, ih]

theorem ofOccurrences_asked (ws : List Occurrence) : ofOccurrences (ws.map Occurrence.asked) = (ofOccurrences ws).map asked := by
  have hfold (gs : List Group) : (ws.map Occurrence.asked).foldl (fun gs w => insert w gs) (gs.map asked) =
      (ws.foldl (fun gs w => insert w gs) gs).map asked := by
    induction ws generalizing gs with
    | nil => rfl
    | cons w ws ih => rw [List.map_cons, List.foldl_cons, List.foldl_cons, insert_asked, ih]
  exact hfold []

end Group

namespace Resolver
variable {σ : Type} [RandomSource σ] (store : Store)

/-! ## Binding -/

/-- A waiting group of what its members ask for. -/
def askedWaiting (w : Waiting) : Waiting := (w.1.asked, w.2)

theorem bindReady_asked (ready : List Waiting) (bound : Bindings) :
    (bindReady store (ready.map askedWaiting) bound : Resolving σ Bindings) = bindReady store ready bound := by
  induction ready generalizing bound with
  | nil => rfl
  | cons w ready ih =>
    obtain ⟨g, d⟩ := w
    rw [List.map_cons, askedWaiting, bindReady, bindReady, Group.clauses_asked, Group.keycode_asked]
    simp only [ih]

theorem bindWaiting_asked (waiting : List Waiting) (bound : Bindings) :
    (bindWaiting store (waiting.map askedWaiting) bound : Resolving σ (Bindings × List Waiting)) =
      (fun o => (o.1, o.2.map askedWaiting)) <$> bindWaiting store waiting bound := by
  induction waiting generalizing bound with
  | nil => rfl
  | cons w waiting ih =>
    obtain ⟨g, d⟩ := w
    rw [List.map_cons, askedWaiting, bindWaiting, bindWaiting, Group.clauses_asked, Group.keycode_asked]
    cases g.clauses.mapM (substitute bound) with
    | none => simp [ih, askedWaiting]
    | some clauses => simp [ih]

theorem settle_asked (most : Nat) (waiting : List Waiting) (bound : Bindings) :
    (settle store most (waiting.map askedWaiting) bound : Resolving σ Bindings) = settle store most waiting bound := by
  induction most generalizing waiting bound with
  | zero => rfl
  | succ most ih =>
    have hwarn (left : List Waiting) : (warnUnbound (left.map askedWaiting) : Resolving σ Unit) = warnUnbound left := by
      simp [warnUnbound, askedWaiting, Function.comp_def]
    rw [settle, settle, bindWaiting_asked]
    simp only [List.isEmpty_map, bind_map_left, List.length_map, hwarn, ih]

theorem demandsOf_asked (groups : List Group) : demandsOf (groups.map Group.asked) = (demandsOf groups).map askedWaiting := by
  have hdemand (g : Group) : demand? g.asked = demand? g := by simp [demand?]
  rw [demandsOf, demandsOf, List.filterMap_map, List.map_filterMap]
  refine List.filterMap_congr fun g _ => ?_
  rw [Function.comp_apply, hdemand, Option.map_map]
  rfl

theorem pronounsOf_asked (bound : Bindings) (groups : List Group) (ws : List Occurrence) :
    pronounsOf bound (groups.map Group.asked) (ws.map Occurrence.asked) = pronounsOf bound groups ws := by
  have hgender (ws : List Occurrence) : nearestGender bound (ws.map Occurrence.asked) = nearestGender bound ws := by
    rw [nearestGender, nearestGender, ← List.map_reverse, List.findSome?_map]
    rfl
  have hpronoun (g : Group) : pronounOf bound (ws.map Occurrence.asked) g.asked = pronounOf bound ws g := by
    rw [pronounOf, pronounOf, List.takeWhile_map, hgender, Group.subtype_asked, Group.keycode_asked]
    rfl
  have hfilter : (groups.map Group.asked).filter isPronoun = (groups.filter isPronoun).map Group.asked := by
    rw [List.filter_map]
    rfl
  rw [pronounsOf, hfilter, List.map_map]
  refine List.map_congr_left fun g _ => ?_
  rw [Function.comp_apply, hpronoun, Group.keycode_asked]

theorem bindAll_asked (groups : List Group) (ws : List Occurrence) :
    (bindAll store (groups.map Group.asked) (ws.map Occurrence.asked) : Resolving σ Bindings) = bindAll store groups ws := by
  have hready : readyOf (groups.map Group.asked) = (readyOf groups).map askedWaiting := by
    rw [readyOf, demandsOf_asked, List.filter_map, readyOf]
    congr 1
    refine List.filter_congr fun w _ => ?_
    simp [askedWaiting]
  have hwaiting : waitingOf (groups.map Group.asked) = (waitingOf groups).map askedWaiting := by
    rw [waitingOf, demandsOf_asked, List.filter_map, waitingOf]
    congr 1
    refine List.filter_congr fun w _ => ?_
    simp [askedWaiting]
  simp only [bindAll_eq, hready, hwaiting, bindReady_asked, settle_asked, List.length_map, pronounsOf_asked]

/-- Occurrences that ask for the same are bound to the same. -/
theorem bindAll_congr {ws ws' : List Occurrence} (h : ws'.map Occurrence.asked = ws.map Occurrence.asked) :
    (bindAll store (Group.ofOccurrences ws') ws' : Resolving σ Bindings) = bindAll store (Group.ofOccurrences ws) ws := by
  rw [← bindAll_asked, ← Group.ofOccurrences_asked, h, Group.ofOccurrences_asked, bindAll_asked]

theorem assignments_congr {ws ws' : List Occurrence} (h : ws'.map Occurrence.asked = ws.map Occurrence.asked) (bound : Bindings) :
    assignments (Group.ofOccurrences ws') bound = assignments (Group.ofOccurrences ws) bound := by
  have hasked (groups : List Group) : assignments (groups.map Group.asked) bound = assignments groups bound := by
    rw [assignments, assignments, List.filter_map, List.filterMap_map]
    rfl
  rw [← hasked, ← Group.ofOccurrences_asked, h, Group.ofOccurrences_asked, hasked]

theorem namesBytes_congr {ws ws' : List Occurrence} (h : ws'.map Occurrence.asked = ws.map Occurrence.asked) (bound : Bindings) :
    ws'.any (namesBytes bound) = ws.any (namesBytes bound) := by
  have hasked (ws : List Occurrence) : (ws.map Occurrence.asked).any (namesBytes bound) = ws.any (namesBytes bound) := by
    rw [List.any_map]
    rfl
  rw [← hasked, h, hasked]

/-! ## Tokens -/

/-- Where a token comes from and what it shows. -/
def seen (t : Token) : Text × Option Name := (t.source, t.shown)

variable {token token' : Occurrence → Token}

theorem weave_seen {ws : List Occurrence} (h : ∀ w ∈ ws, seen (token' w) = seen (token w)) (place : Nat) (t : Text) :
    (weave token' place t ws).map seen = (weave token place t ws).map seen := by
  induction ws generalizing place t with
  | nil => rfl
  | cons w ws ih =>
    rw [weave, weave, List.map_append, List.map_append, List.map_cons, List.map_cons, h w List.mem_cons_self,
      ih fun w' hw' => h w' (List.mem_cons_of_mem _ hw')]

/-- Wildcards further on in a text that begins further on. -/
theorem weave_moved {ws : List Occurrence} (hws : ∀ w ∈ ws, w.nested = false) (k place : Nat) (t : Text) :
    weave token (place + k) t (ws.map (·.moved k)) = weave (fun w => token (w.moved k)) place t ws := by
  induction ws generalizing place t with
  | nil => rfl
  | cons w ws ih =>
    have hw : w.nested = false := hws w List.mem_cons_self
    have hstart : (w.moved k).start = w.start + k := by rw [Occurrence.moved, hw]; rfl
    have hstop : (w.moved k).stop = w.stop + k := by rw [Occurrence.moved, hw]; rfl
    rw [List.map_cons, weave, weave, hstart, hstop, Nat.add_sub_add_right, Nat.add_sub_add_right,
      ih fun w' hw' => hws w' (List.mem_cons_of_mem _ hw')]

theorem laid_nonempty {place : Nat} {t : Text} {ws : List Occurrence} (h : Laid place t ws) :
    ∀ w ∈ ws, w.start < w.stop ∧ w.text.length = w.stop - w.start := by
  have hspan := h.span (List.length_replicate (n := place) (a := CodePoint.char ' '))
  intro w hw
  have hstands := hspan w hw
  refine ⟨hstands.nonempty, ?_⟩
  rw [hstands.text_eq, List.length_drop, List.length_take, Nat.min_eq_left hstands.inside]

/-- The text up to a place behind a wildcard, and the text from there on. -/
theorem take_behind {place n : Nat} {gap t : Text} {f : Occurrence} (hstart : f.start = place + gap.length)
    (hstop : f.stop = f.start + f.text.length) (hn : f.stop ≤ n) :
    (gap ++ (f.text ++ t)).take (n - place) = gap ++ (f.text ++ t.take (n - f.stop)) := by
  have hlength : n - place = (gap ++ f.text).length + (n - f.stop) := by
    rw [List.length_append]
    omega
  rw [← List.append_assoc, hlength, List.take_length_add_append, List.append_assoc]

theorem drop_behind {place n : Nat} {gap t : Text} {f : Occurrence} (hstart : f.start = place + gap.length)
    (hstop : f.stop = f.start + f.text.length) (hn : f.stop ≤ n) :
    (gap ++ (f.text ++ t)).drop (n - place) = t.drop (n - f.stop) := by
  have hlength : n - place = (gap ++ f.text).length + (n - f.stop) := by
    rw [List.length_append]
    omega
  rw [← List.append_assoc, hlength, List.drop_length_add_append]

/-- The tokens in front of a wildcard come from the text in front of it -/
theorem weave_split {place : Nat} {t : Text} {front back : List Occurrence} {w : Occurrence}
    (h : Laid place t (front ++ w :: back)) : weave token place t (front ++ w :: back) =
      weave token place (t.take (w.start - place)) front ++ token w :: weave token w.stop (t.drop (w.stop - place)) back := by
  induction front generalizing place t with
  | nil => rfl
  | cons f front ih =>
    cases h with
    | @next _ gap t _ _ hgap hbracketed hstart hstop hrest =>
      have hbehind := hrest.place_le w (List.mem_append_right _ List.mem_cons_self)
      have hnonempty := (laid_nonempty hrest w (List.mem_append_right _ List.mem_cons_self)).1
      rw [List.cons_append, weave_next hstart hstop, take_behind hstart hstop hbehind, weave_next hstart hstop,
        drop_behind hstart hstop (by omega), ih hrest]
      simp only [List.append_assoc, List.cons_append]

/-- and make it up. -/
theorem weave_front_source (htoken : ∀ w, (token w).source = w.text) {place : Nat} {t : Text} {front back : List Occurrence}
    {w : Occurrence} (h : Laid place t (front ++ w :: back)) :
    (weave token place (t.take (w.start - place)) front).flatMap Token.source = t.take (w.start - place) := by
  induction front generalizing place t with
  | nil => exact literals_source _
  | cons f front ih =>
    cases h with
    | @next _ gap t _ _ hgap hbracketed hstart hstop hrest =>
      have hbehind := hrest.place_le w (List.mem_append_right _ List.mem_cons_self)
      rw [take_behind hstart hstop hbehind, weave_next hstart hstop, List.flatMap_append, literals_source,
        List.flatMap_cons, htoken, ih hrest]

/-- Two rows of tokens that show the same and come from the same, but for one token in each. In
    the second row this one comes from a text with a question mark in it, where the first row
    has the place `k` of the sentence. -/
def SameBut (k : Nat) (tokens tokens' : List Token) : Prop :=
  ∃ before token behind before' token' behind' x y, tokens = before ++ token :: behind ∧
    tokens' = before' ++ token' :: behind' ∧ before'.map seen = before.map seen ∧ behind'.map seen = behind.map seen ∧
    token.source = x ++ y ∧ token'.source = x ++ .char '?' :: y ∧ x ≠ [] ∧ y ≠ [] ∧
    (before.flatMap Token.source ++ x).length = k

theorem weave_hides (htoken : ∀ w, (token w).source = w.text) (htoken' : ∀ w, (token' w).source = w.text)
    (hseen : ∀ w, seen (token' w) = seen (token w)) (hmoved : ∀ w, seen (token' (w.moved 1)) = seen (token w))
    {z v : Text} {front back : List Occurrence} {w w' : Occurrence} (hback : ∀ w ∈ back, w.nested = false)
    (h : Laid 0 (z ++ v) (front ++ w :: back))
    (h' : Laid 0 (z ++ .char '?' :: v) (front ++ w' :: back.map (·.moved 1)))
    (hlow : w.start < z.length) (hhigh : z.length < w.stop) (hstart : w'.start = w.start) (hstop : w'.stop = w.stop + 1) :
    SameBut z.length (weave token 0 (z ++ v) (front ++ w :: back))
      (weave token' 0 (z ++ .char '?' :: v) (front ++ w' :: back.map (·.moved 1))) := by
  have hmem : w ∈ front ++ w :: back := List.mem_append_right _ List.mem_cons_self
  have hmem' : w' ∈ front ++ w' :: back.map (·.moved 1) := List.mem_append_right _ List.mem_cons_self
  have hstands := @Laid.span 0 _ _ h [] rfl w hmem
  have hstands' := @Laid.span 0 _ _ h' [] rfl w' hmem'
  have hsource := weave_front_source htoken h
  have hfront : (z ++ .char '?' :: v).take w.start = (z ++ v).take w.start := by
    rw [List.take_append_of_le_length (by omega), List.take_append_of_le_length (by omega)]
  obtain ⟨j, hj⟩ : ∃ j, w.stop = z.length + j := ⟨w.stop - z.length, by omega⟩
  have hbehind : (z ++ .char '?' :: v).drop (w.stop + 1) = (z ++ v).drop w.stop := by
    rw [hj, Nat.add_assoc, List.drop_length_add_append, List.drop_length_add_append, List.drop_succ_cons]
  refine ⟨_, _, _, _, _, _, z.drop w.start, v.take j, weave_split h, weave_split h', ?_, ?_, ?_, ?_, ?_, ?_, ?_⟩
  · rw [hstart, Nat.sub_zero, hfront]
    exact weave_seen (fun w _ => hseen w) 0 _
  · rw [hstop, Nat.sub_zero, hbehind, weave_moved hback]
    exact weave_seen (fun w _ => hmoved w) w.stop _
  · rw [htoken, hstands.text_eq, List.nil_append, hj, List.take_length_add_append,
      List.drop_append_of_le_length (by omega)]
  · rw [htoken', hstands'.text_eq, List.nil_append, hstop, hstart, hj, Nat.add_assoc, List.take_length_add_append,
      List.take_succ_cons, List.drop_append_of_le_length (by omega)]
  · rw [Ne, List.drop_eq_nil_iff]
    omega
  · have hinside := hstands.inside
    rw [List.nil_append, List.length_append] at hinside
    rw [Ne, List.take_eq_nil_iff]
    rintro (hzero | rfl)
    · omega
    · rw [List.length_nil] at hinside
      omega
  · rw [List.length_append, hsource, List.length_take, List.length_append, List.length_drop]
    omega

/-- What other wildcards there are does not matter for what is seen of a token, -/
theorem tokenOf_seen (groups groups' : List Group) (bound : Bindings) (w : Occurrence) :
    seen (tokenOf store groups' bound w) = seen (tokenOf store groups bound w) := by
  unfold tokenOf
  cases bound.lookup w.keycode with
  | none => rfl
  | some shown =>
    cases w.obfuscated with
    | false => rfl
    | true =>
      cases shown with
      | standIn s => rfl
      | entity e =>
        dsimp only
        cases standInFor? store e with
        | none => rfl
        | some standIn => rfl

/-- nor where in the sentence it stands. -/
theorem tokenOf_moved (groups : List Group) (bound : Bindings) (k : Nat) (w : Occurrence) :
    tokenOf store groups bound (w.moved k) = tokenOf store groups bound w := by
  unfold Occurrence.moved
  split
  · rfl
  · rfl

/-! ## The work on the sentence -/

/-- A sentence with a question mark behind its first `k` characters. -/
def questioned (sentence : Text) (k : Nat) : Text := sentence.take k ++ .char '?' :: sentence.drop k

/-- The same fault, or tasks with the same assignments that show the same but in one place. -/
def SameUpTo (k : Nat) : Except TaskFault Task → Except TaskFault Task → Prop
  | .error f, .error f' => f' = f
  | .ok t, .ok t' => t'.assignments = t.assignments ∧ SameBut k t.tokens t'.tokens
  | _, _ => False

/-- Work on a sentence with one marker in it that has become longer, and is still alike. -/
theorem task_covered {z v : Text} (h : Markup.Covered z.length (Markup.read .sentence 0 (z ++ v))
    (Markup.read .sentence 0 (z ++ .char '?' :: v))) (r : Resolver σ) :
    ((task store (z ++ .char '?' :: v)).run r).2 = ((task store (z ++ v)).run r).2 ∧
    SameUpTo z.length ((task store (z ++ v)).run r).1 ((task store (z ++ .char '?' :: v)).run r).1 := by
  have hsame : SameRun ((scan (z ++ v)).run r.next) ((scan (z ++ .char '?' :: v)).run r.next) :=
    Markup.run_alike h.alike false r.next
  have hscanned := scanned_eq (z ++ v) r
  have hscanned' := scanned_eq (z ++ .char '?' :: v) r
  unfold task
  rcases hrun : (scan (z ++ v)).run r.next with ⟨f | found, n⟩
  · rw [hrun] at hsame hscanned
    rw [hsame.of_error] at hscanned'
    rw [run_bind_error hscanned, run_bind_error hscanned']
    exact ⟨rfl, rfl⟩
  rw [hrun] at hsame hscanned
  obtain ⟨found', hrun', hasked⟩ := hsame.of_ok
  rw [hrun'] at hscanned'
  rw [run_bind_ok hscanned, run_bind_ok hscanned']
  obtain ⟨-, hdirect, hall⟩ := Found.asked_eq_iff.mp hasked
  dsimp only
  rw [bindAll_congr store hall]
  rcases hbound : (bindAll store (Group.ofOccurrences found.all) found.all).run { r with next := n } with ⟨f | bound, r'⟩
  · rw [run_bind_error hbound, run_bind_error hbound]
    exact ⟨rfl, rfl⟩
  rw [run_bind_ok hbound, run_bind_ok hbound, namesBytes_congr hdirect, assignments_congr hall]
  by_cases hbytes : found.direct.any (namesBytes bound) = true
  · rw [if_pos hbytes, if_pos hbytes, run_bind_error (run_throw _), run_bind_error (run_throw _)]
    exact ⟨rfl, rfl⟩
  rw [if_neg hbytes, if_neg hbytes, run_pure, run_pure]
  refine ⟨rfl, rfl, ?_⟩
  obtain ⟨front, w, w', back, hd, hd', hlow, hhigh, hstart, hstop⟩ := Markup.run_covered h hrun hrun'
  have hlaid := laid_of_scan hrun
  have hlaid' := laid_of_scan hrun'
  have hnested := Markup.direct_nested hrun
  rw [hd] at hlaid hnested
  rw [hd'] at hlaid'
  show SameBut z.length (weave _ 0 _ found.direct) (weave _ 0 _ found'.direct)
  rw [hd, hd']
  refine weave_hides (tokenOf_source store _ bound) (tokenOf_source store _ bound) (tokenOf_seen store _ _ bound) ?_
    (fun w hw => hnested w (List.mem_append_right _ (List.mem_cons_of_mem _ hw))) hlaid hlaid' hlow hhigh hstart hstop
  intro w
  rw [tokenOf_moved, tokenOf_seen store (Group.ofOccurrences found.all)]

/-- A question mark behind the name of any wildcard without one changes nothing but what is
    shown at that wildcard, or at the one it is nested in. The wildcards that are found are
    those of the markup, and `k` is the place where the name of one ends. With the question
    mark there the same keycodes are found, and the work leaves the same behind and comes to
    the same fault or the same assignments. -/
theorem task_hides {sentence : Text} {m : Marker} {k : Nat} (hm : (m, k) ∈ (Markup.read .sentence 0 sentence).named)
    (hplain : m.obfuscated = false) (r : Resolver σ) :
    (∃ front spaces, sentence.take k = front ++ .char '\x7b' :: (spaces ++ m.name) ∧
      (∀ c ∈ spaces, Reader.isSpace c = true) ∧ m.text <+: .char '\x7b' :: (spaces ++ m.name) ++ sentence.drop k) ∧
    (∀ found, ((scan sentence).run r.next).1 = .ok found → found.all.map (fun w => (w.text, w.obfuscated)) =
      (Markup.read .sentence 0 sentence).named.map fun (m, _) => (m.text, m.obfuscated)) ∧
    ((scan (questioned sentence k)).run r.next).1.map (·.all.map Occurrence.keycode) =
      ((scan sentence).run r.next).1.map (·.all.map Occurrence.keycode) ∧
    ((task store (questioned sentence k)).run r).2 = ((task store sentence).run r).2 ∧
    SameUpTo k ((task store sentence).run r).1 ((task store (questioned sentence k)).run r).1 := by
  obtain ⟨z, v, rfl, rfl, hplace, hcovered⟩ := Markup.read_covered hm hplain
  have hsentence : questioned (z ++ v) (0 + z.length) = z ++ .char '?' :: v := by
    rw [questioned, Nat.zero_add, List.take_left, List.drop_left]
  rw [hsentence]
  rw [Nat.zero_add] at hcovered ⊢
  refine ⟨?_, ?_, ?_, task_covered store hcovered r⟩
  · rw [List.take_left, List.drop_left]
    exact hplace.named
  · intro found hfound
    exact (Markup.named_of_run (Prod.ext hfound rfl)).symm
  · have hsame : SameRun ((scan (z ++ v)).run r.next) ((scan (z ++ .char '?' :: v)).run r.next) :=
      Markup.run_alike hcovered.alike false r.next
    rcases hrun : (scan (z ++ v)).run r.next with ⟨f | found, n⟩
    · rw [hrun] at hsame
      rw [hsame.of_error]
    · rw [hrun] at hsame
      obtain ⟨found', hrun', hasked⟩ := hsame.of_ok
      obtain ⟨-, -, hall⟩ := Found.asked_eq_iff.mp hasked
      have hkeycodes := congrArg (List.map Occurrence.keycode) hall
      rw [List.map_map, List.map_map] at hkeycodes
      rw [hrun']
      exact congrArg Except.ok hkeycodes

/-- The object that the placement in `pantryErrand` shall not be, and the one to put there. -/
def avoidedObject : Marker := ⟨⟨"object".text, false, none, some 1⟩, ⟨none, none⟩, "\x7bobject 1\x7d".text⟩

def carriedObject : Marker :=
  ⟨⟨"object".text, false, none, some 1⟩, ⟨some "type = \"known\"".text, none⟩, "\x7bobject 1 where type = \"known\"\x7d".text⟩

theorem task_hides_pantry : (avoidedObject, 71) ∈ (Markup.read .sentence 0 pantryErrand).named ∧
    (carriedObject, 11) ∈ (Markup.read .sentence 0 pantryErrand).named ∧
    ∃ (r r₁ : Resolver Script) (t t₁ t₂ : Task), (task pantry pantryErrand).run r = (.ok t, r₁) ∧
      (task pantry (questioned pantryErrand 71)).run r = (.ok t₁, r₁) ∧
      (task pantry (questioned pantryErrand 11)).run r = (.ok t₂, r₁) ∧
      t.tokens.map Token.written = ["put ".text, "\x7bobject 1 where type = \"known\"\x7d => cup".text, " on ".text,
        "\x7bplacement where name != \x7bobject 1\x7d\x7d => shelf".text] ∧
      t₂.tokens.map Token.written = ["put ".text, "\x7bobject? 1 where type = \"known\"\x7d => objects".text, " on ".text,
        "\x7bplacement where name != \x7bobject 1\x7d\x7d => shelf".text] ∧
      SameBut 71 t.tokens t₁.tokens ∧ SameBut 11 t.tokens t₂.tokens := by
  have havoided : (avoidedObject, 71) ∈ (Markup.read .sentence 0 pantryErrand).named := by decide +kernel
  have hcarried : (carriedObject, 11) ∈ (Markup.read .sentence 0 pantryErrand).named := by decide +kernel
  obtain ⟨-, -, -, hstate₁, hsame₁⟩ :=
    task_hides pantry havoided rfl (start pantry .moderate (⟨[]⟩ : Script) 1)
  obtain ⟨-, -, -, hstate₂, hsame₂⟩ :=
    task_hides pantry hcarried rfl (start pantry .moderate (⟨[]⟩ : Script) 1)
  have hwritten : ((task pantry pantryErrand).run
      (start pantry .moderate (⟨[]⟩ : Script) 1)).1.toOption.map (·.tokens.map Token.written) =
      some ["put ".text, "\x7bobject 1 where type = \"known\"\x7d => cup".text, " on ".text,
        "\x7bplacement where name != \x7bobject 1\x7d\x7d => shelf".text] := by decide +kernel
  have hwritten₂ : ((task pantry (questioned pantryErrand 11)).run
      (start pantry .moderate (⟨[]⟩ : Script) 1)).1.toOption.map (·.tokens.map Token.written) =
      some ["put ".text, "\x7bobject? 1 where type = \"known\"\x7d => objects".text, " on ".text,
        "\x7bplacement where name != \x7bobject 1\x7d\x7d => shelf".text] := by decide +kernel
  obtain ⟨t, r₁, hrun, ht⟩ := ok_of_toOption hwritten
  obtain ⟨t₂, r₂, hrun₂, ht₂⟩ := ok_of_toOption hwritten₂
  rw [hrun] at hstate₁ hsame₁ hstate₂ hsame₂
  rw [hrun₂] at hstate₂ hsame₂
  obtain rfl : r₂ = r₁ := hstate₂
  rcases hrun₁ : (task pantry (questioned pantryErrand 71)).run (start pantry .moderate (⟨[]⟩ : Script) 1) with ⟨f | t₁, r₁⟩
  · rw [hrun₁] at hsame₁
    exact hsame₁.elim
  · rw [hrun₁] at hstate₁ hsame₁
    obtain rfl : r₁ = r₂ := hstate₁
    exact ⟨havoided, hcarried, _, _, t, t₁, t₂, hrun, hrun₁, hrun₂, ht, ht₂, hsame₁.2, hsame₂.2⟩

end Resolver

end Errand
