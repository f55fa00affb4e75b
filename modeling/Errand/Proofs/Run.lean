/-
  Errand.Proofs.Run — runs of steps that change a state and may fail.

  A run of two steps in a row is taken apart at the state between them, whether it
  ends well (`run_bind_eq_ok`) or in a fault (`run_bind_eq_error`). What a step
  retains, it retains in both cases (`Retains`). A step that never comes to a fault ends
  well from every state (`Ends`), and so do such steps in a row. A step ends well under a
  condition (`EndsIff`) if the condition decides it in every state; of steps in a row all
  conditions must hold. A step that only notes something more comes to the same whatever was
  noted before (`Steady`).
-/

namespace Errand

variable {ε σ α β : Type} {x : ExceptT ε (StateM σ) α} {f : α → ExceptT ε (StateM σ) β} {s s' : σ}

theorem run_bind_ok {a : α} (h : x.run s = (.ok a, s')) : (x >>= f).run s = (f a).run s' := by
  show (match x.run s with | (r, t) => ExceptT.bindCont f r t) = _
  rw [h]
  rfl

theorem run_bind_error {e : ε} (h : x.run s = (.error e, s')) : (x >>= f).run s = (.error e, s') := by
  show (match x.run s with | (r, t) => ExceptT.bindCont f r t) = _
  rw [h]
  rfl

/-- What is made of a result changes neither the state nor a fault. -/
theorem run_bind_pure {g : α → β} : (x >>= fun a => pure (g a)).run s = ((x.run s).1.map g, (x.run s).2) := by
  rcases hrun : x.run s with ⟨e | a, t⟩
  · exact run_bind_error hrun
  · exact run_bind_ok hrun

theorem run_tryCatch_ok {c : ε → ExceptT ε (StateM σ) α} {a : α} (h : x.run s = (.ok a, s')) :
    (tryCatch x c).run s = (.ok a, s') := by
  show (StateT.run x.run s >>= fun p => StateT.run (m := Id) (match p.1 with
    | .ok a => pure (.ok a)
    | .error e => (c e).run) p.2) = _
  rw [show StateT.run x.run s = (.ok a, s') from h]
  rfl

theorem run_tryCatch_error {c : ε → ExceptT ε (StateM σ) α} {e : ε} (h : x.run s = (.error e, s')) :
    (tryCatch x c).run s = (c e).run s' := by
  show (StateT.run x.run s >>= fun p => StateT.run (m := Id) (match p.1 with
    | .ok a => pure (.ok a)
    | .error e => (c e).run) p.2) = _
  rw [show StateT.run x.run s = (.error e, s') from h]
  rfl

theorem run_bind_eq_ok {b : β} : (x >>= f).run s = (.ok b, s') ↔
    ∃ a t, x.run s = (.ok a, t) ∧ (f a).run t = (.ok b, s') := by
  constructor
  · intro h
    rcases hx : x.run s with ⟨e | a, t⟩
    · rw [run_bind_error hx] at h
      cases h
    · rw [run_bind_ok hx] at h
      exact ⟨a, t, rfl, h⟩
  · rintro ⟨a, t, hx, h⟩
    rw [run_bind_ok hx, h]

theorem run_bind_eq_error {e : ε} : (x >>= f).run s = (.error e, s') ↔
    x.run s = (.error e, s') ∨ ∃ a t, x.run s = (.ok a, t) ∧ (f a).run t = (.error e, s') := by
  constructor
  · intro h
    rcases hx : x.run s with ⟨e | a, t⟩
    · rw [run_bind_error hx] at h
      cases h
      exact Or.inl rfl
    · rw [run_bind_ok hx] at h
      exact Or.inr ⟨a, t, rfl, h⟩
  · rintro (hx | ⟨a, t, hx, h⟩)
    · exact run_bind_error hx
    · rw [run_bind_ok hx, h]

theorem run_pure (a : α) : (pure a : ExceptT ε (StateM σ) α).run s = (.ok a, s) := rfl

theorem run_throw (e : ε) : (throw e : ExceptT ε (StateM σ) α).run s = (.error e, s) := rfl

theorem run_pure_eq_ok {a b : α} : (pure a : ExceptT ε (StateM σ) α).run s = (.ok b, s') ↔ a = b ∧ s = s' := by
  constructor
  · intro h
    cases h
    exact ⟨rfl, rfl⟩
  · rintro ⟨rfl, rfl⟩
    rfl

/-- What each step keeps holds after all of them. -/
theorem run_foldlM_invariant {Inv : α → Prop} {step : α → β → ExceptT ε (StateM σ) α}
    (hstep : ∀ a b s a' s', Inv a → (step a b).run s = (.ok a', s') → Inv a') {bs : List β} {a a' : α}
    (h : (bs.foldlM step a).run s = (.ok a', s')) (ha : Inv a) : Inv a' := by
  induction bs generalizing a s with
  | nil =>
    obtain ⟨rfl, -⟩ := run_pure_eq_ok.mp h
    exact ha
  | cons b bs ih =>
    rw [List.foldlM_cons] at h
    obtain ⟨a₁, s₁, hb, h⟩ := run_bind_eq_ok.mp h
    exact ih h (hstep _ _ _ _ _ ha hb)

theorem run_bind_get {f : σ → ExceptT ε (StateM σ) β} : (get >>= f).run s = (f s).run s := rfl

theorem run_lift {x : StateM σ α} : (ExceptT.lift x : ExceptT ε (StateM σ) α).run s = (.ok (x.run s).1, (x.run s).2) :=
  rfl

/-- Steps that cannot fail, one after the other. -/
theorem run_bind_state {x : StateM σ α} {f : α → StateM σ β} :
    (x >>= f).run s = (f (x.run s).1).run (x.run s).2 := rfl

/-! ## Steps that retain something -/

/-- Whatever comes of a step, what one sees in the state is the same as before. -/
def Retains (view : σ → β) (x : ExceptT ε (StateM σ) α) : Prop := ∀ s, view (x.run s).2 = view s

section Retains
variable {γ : Type} {view : σ → γ}

theorem retains_pure (a : α) : Retains view (pure a : ExceptT ε (StateM σ) α) := fun _ => rfl

theorem retains_throw (e : ε) : Retains view (throw e : ExceptT ε (StateM σ) α) := fun _ => rfl

theorem Retains.bind (hx : Retains view x) (hf : ∀ a, Retains view (f a)) : Retains view (x >>= f) := by
  intro s
  rcases hrun : x.run s with ⟨e | a, t⟩
  · rw [run_bind_error hrun]
    have hs := hx s
    rw [hrun] at hs
    exact hs
  · rw [run_bind_ok hrun]
    have hs := hx s
    rw [hrun] at hs
    exact (hf a t).trans hs

/-- A step that begins with a look at the state. -/
theorem Retains.of_get {g : σ → ExceptT ε (StateM σ) β} (hg : ∀ s, view ((g s).run s).2 = view s) :
    Retains view (get >>= g) := hg

theorem Retains.eq {res : Except ε α} (hx : Retains view x) (h : x.run s = (res, s')) : view s' = view s := by
  have hs := hx s
  rw [h] at hs
  exact hs

end Retains

/-! ## Steps that end well -/

/-- From every state the step ends well, in a result of a kind. -/
def Ends (x : ExceptT ε (StateM σ) α) (P : α → Prop) : Prop := ∀ s, ∃ a s', x.run s = (.ok a, s') ∧ P a

section Ends
variable {P : α → Prop} {Q : β → Prop}

theorem ends_pure {a : α} (h : P a) : Ends (pure a : ExceptT ε (StateM σ) α) P := fun s => ⟨a, s, rfl, h⟩

theorem Ends.bind (hx : Ends x P) (hf : ∀ a, P a → Ends (f a) Q) : Ends (x >>= f) Q := by
  intro s
  obtain ⟨a, t, hrun, ha⟩ := hx s
  obtain ⟨b, s', hrun', hb⟩ := hf a ha t
  exact ⟨b, s', (run_bind_ok hrun).trans hrun', hb⟩

/-- Step by step, what is true of the result and of the part passed so far. -/
theorem ends_foldlM (Inv : List β → α → Prop) {step : α → β → ExceptT ε (StateM σ) α} {bs : List β} {a : α}
    (hstep : ∀ passed a, Inv passed a → ∀ b ∈ bs, Ends (step a b) (Inv (passed ++ [b]))) (h : Inv [] a) :
    Ends (bs.foldlM step a) (Inv bs) := by
  have hrest (passed rest : List β) (a : α) (hrest : ∀ b ∈ rest, b ∈ bs) (h : Inv passed a) :
      Ends (rest.foldlM step a) (Inv (passed ++ rest)) := by
    induction rest generalizing passed a with
    | nil =>
      rw [List.append_nil]
      exact ends_pure h
    | cons b rest ih =>
      rw [List.foldlM_cons]
      refine (hstep passed a h b (hrest b List.mem_cons_self)).bind fun a' ha' => ?_
      rw [List.append_cons]
      exact ih (passed ++ [b]) a' (fun b' hb' => hrest b' (List.mem_cons_of_mem _ hb')) ha'
  exact hrest [] bs a (fun _ hb => hb) h

end Ends

/-! ## Steps that end well under a condition -/

/-- Whatever the state, the step ends well if and only if something is the case. -/
def EndsIff (x : ExceptT ε (StateM σ) α) (p : Prop) : Prop := ∀ s, (∃ a s', x.run s = (.ok a, s')) ↔ p

section EndsIff
variable {p q : Prop}

theorem endsIff_pure (a : α) : EndsIff (pure a : ExceptT ε (StateM σ) α) True :=
  fun s => iff_of_true ⟨a, s, rfl⟩ trivial

theorem endsIff_throw (e : ε) : EndsIff (throw e : ExceptT ε (StateM σ) α) False := by
  refine fun s => iff_of_false ?_ id
  rintro ⟨a, s', h⟩
  cases h

theorem EndsIff.of_iff (h : EndsIff x p) (hpq : p ↔ q) : EndsIff x q := fun s => (h s).trans hpq

theorem EndsIff.bind (hx : EndsIff x p) (hf : p → ∀ a, EndsIff (f a) q) : EndsIff (x >>= f) (p ∧ q) := by
  intro s
  constructor
  · rintro ⟨b, s', h⟩
    obtain ⟨a, t, hrun, h⟩ := run_bind_eq_ok.mp h
    have hp := (hx s).mp ⟨a, t, hrun⟩
    exact ⟨hp, (hf hp a t).mp ⟨b, s', h⟩⟩
  · rintro ⟨hp, hq⟩
    obtain ⟨a, t, hrun⟩ := (hx s).mpr hp
    obtain ⟨b, s', h⟩ := (hf hp a t).mpr hq
    exact ⟨b, s', (run_bind_ok hrun).trans h⟩

/-- Steps in a row end well if each of them does, whatever they start from. -/
theorem endsIff_foldlM {P : β → Prop} {step : α → β → ExceptT ε (StateM σ) α} {bs : List β}
    (hstep : ∀ b ∈ bs, ∀ a, EndsIff (step a b) (P b)) (a : α) : EndsIff (bs.foldlM step a) (∀ b ∈ bs, P b) := by
  induction bs generalizing a with
  | nil => exact (endsIff_pure a).of_iff (iff_of_true trivial fun b hb => by cases hb)
  | cons b bs ih =>
    rw [List.foldlM_cons]
    refine ((hstep b List.mem_cons_self a).bind fun _ a' => ?_).of_iff List.forall_mem_cons.symm
    exact ih (fun b' hb' => hstep b' (List.mem_cons_of_mem _ hb')) a'

end EndsIff

/-! ## Steps that only note something -/

/-- What comes of a step does not depend on what was noted before, and the step leaves that
    as it is. -/
def Steady {ν : Type} (x : ExceptT ε (StateM (List ν)) α) : Prop := ∃ res more, ∀ l, x.run l = (res, l ++ more)

section Steady
variable {ν : Type} {y : ExceptT ε (StateM (List ν)) α}

theorem steady_pure (a : α) : Steady (pure a : ExceptT ε (StateM (List ν)) α) :=
  ⟨.ok a, [], fun l => by rw [List.append_nil]; rfl⟩

theorem steady_throw (e : ε) : Steady (throw e : ExceptT ε (StateM (List ν)) α) :=
  ⟨.error e, [], fun l => by rw [List.append_nil]; rfl⟩

theorem Steady.bind {g : α → ExceptT ε (StateM (List ν)) β} (hy : Steady y) (hg : ∀ a, Steady (g a)) :
    Steady (y >>= g) := by
  obtain ⟨e | a, more, hrun⟩ := hy
  · exact ⟨.error e, more, fun l => run_bind_error (hrun l)⟩
  · obtain ⟨res, more', hrun'⟩ := hg a
    refine ⟨res, more ++ more', fun l => ?_⟩
    rw [run_bind_ok (hrun l), hrun', List.append_assoc]

theorem steady_foldlM {step : α → β → ExceptT ε (StateM (List ν)) α} {bs : List β}
    (hstep : ∀ a b, Steady (step a b)) (a : α) : Steady (bs.foldlM step a) := by
  induction bs generalizing a with
  | nil => exact steady_pure a
  | cons b bs ih =>
    rw [List.foldlM_cons]
    exact (hstep a b).bind ih

theorem Steady.run_eq (hy : Steady y) (l : List ν) : y.run l = ((y.run []).1, l ++ (y.run []).2) := by
  obtain ⟨res, more, hrun⟩ := hy
  rw [hrun, hrun, List.nil_append]

/-- What was noted before stays in front. -/
theorem Steady.isPrefix {res : Except ε α} {l l' : List ν} (hy : Steady y) (h : y.run l = (res, l')) : l <+: l' := by
  rw [hy.run_eq l] at h
  cases h
  exact List.prefix_append _ _

end Steady

theorem exists_of_map_eq_ok {x : Except ε α} {g : α → β} {b : β} (h : x.map g = .ok b) :
    ∃ a, x = .ok a ∧ g a = b := by
  cases x with
  | error e => cases h
  | ok a =>
    cases h
    exact ⟨a, rfl, rfl⟩

theorem exists_of_bind_eq_ok {x : Except ε α} {f : α → Except ε β} {b : β} (h : x >>= f = .ok b) :
    ∃ a, x = .ok a ∧ f a = .ok b := by
  cases x with
  | error e => cases h
  | ok a => exact ⟨a, rfl, h⟩

theorem of_bind_eq_error {x : Except ε α} {f : α → Except ε β} {e : ε} (h : x >>= f = .error e) :
    x = .error e ∨ ∃ a, x = .ok a ∧ f a = .error e := by
  cases x with
  | error e' =>
    cases h
    exact Or.inl rfl
  | ok a => exact Or.inr ⟨a, rfl, h⟩

/-- What each step keeps holds after all of them. -/
theorem foldlM_keeps {step : β → α → Except ε β} {P : β → Prop} {l : List α}
    (hstep : ∀ b, ∀ a ∈ l, ∀ b', P b → step b a = .ok b' → P b') {b b' : β} (hb : P b)
    (h : l.foldlM step b = .ok b') : P b' := by
  induction l generalizing b with
  | nil =>
    cases h
    exact hb
  | cons a l ih =>
    rw [List.foldlM_cons] at h
    rcases ha : step b a with e | c
    · rw [ha] at h
      cases h
    · rw [ha] at h
      exact ih (fun b a ha' => hstep b a (List.mem_cons_of_mem _ ha')) (hstep b a List.mem_cons_self c hb ha) h

theorem error_of_map_eq_error {x : Except ε α} {g : α → β} {e : ε} (h : x.map g = .error e) : x = .error e := by
  cases x with
  | error _ =>
    cases h
    rfl
  | ok _ => cases h

/-- What has a result that shows something ends well. -/
theorem exists_of_toOption {x : Except ε α} {view : α → β} {b : β} (h : x.toOption.map view = some b) :
    ∃ a, x = .ok a ∧ view a = b := by
  rcases x with e | a
  · cases h
  · exact ⟨a, rfl, Option.some.inj h⟩

/-- A run of which the result shows something has a result. -/
theorem ok_of_toOption {x : Except ε α × σ} {view : α → β} {b : β} (h : x.1.toOption.map view = some b) :
    ∃ a s, x = (.ok a, s) ∧ view a = b := by
  obtain ⟨a, ha, hb⟩ := exists_of_toOption h
  exact ⟨a, x.2, Prod.ext ha rfl, hb⟩

end Errand
