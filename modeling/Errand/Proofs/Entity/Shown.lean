/-
  Errand.Proofs.Entity.Shown — what values look like as texts.

  A scalar that is no text begins with a digit, a minus sign or one of a few letters when it
  is made one, so not every word can come of it (`Scalar.display?_begins`). And nothing comes
  of nothing only: what is not empty is not shown as the empty text (`Value.display?_ne_nil`).
-/

import Errand.Proofs.Text.Decimal
import Errand.Value

namespace Errand

/-! ## Digits in front -/

/-- The text begins with a character of a class. -/
def Begins (p : CodePoint → Bool) (t : Text) : Prop := ∃ c rest, t = c :: rest ∧ p c = true

theorem Begins.append {p : CodePoint → Bool} {t : Text} (h : Begins p t) (u : Text) : Begins p (t ++ u) := by
  obtain ⟨c, rest, rfl, hc⟩ := h
  exact ⟨c, rest ++ u, rfl, hc⟩

theorem Begins.weaken {p q : CodePoint → Bool} {t : Text} (h : Begins p t) (hq : ∀ c, p c = true → q c = true) :
    Begins q t := by
  obtain ⟨c, rest, rfl, hc⟩ := h
  exact ⟨c, rest, rfl, hq c hc⟩

theorem begins_decimal (n : Nat) : Begins Reader.isDigit (decimal n) := by
  obtain ⟨c, rest, hc⟩ := List.exists_cons_of_ne_nil (decimal_ne_nil n)
  exact ⟨c, rest, hc, isDigit_of_decimal (n := n) (hc ▸ List.mem_cons_self)⟩

theorem begins_padded (width n : Nat) : Begins Reader.isDigit (padded width n) := by
  show Begins _ (List.replicate (width - (decimal n).length) _ ++ decimal n)
  rcases width - (decimal n).length with _ | k
  · exact begins_decimal n
  · exact ⟨_, _, rfl, by decide⟩

theorem begins_day (d : Day) : Begins Reader.isDigit d.text := by
  simp only [Day.text, List.append_assoc]
  exact (begins_padded 4 d.year).append _

theorem begins_moment (m : Moment) : Begins Reader.isDigit m.text := by
  simp only [Moment.text, List.append_assoc]
  exact (begins_day m.day).append _

theorem begins_positional {digits : Text} (h : Begins Reader.isDigit digits) (point : Int) :
    Begins Reader.isDigit (Double.positionalText digits point) := by
  rw [Double.positionalText]
  split
  · exact ⟨'0', _, rfl, by decide⟩
  · rename_i hpoint
    dsimp only
    split
    · rw [List.append_assoc]
      exact h.append _
    · -- at least one digit stands in front of the point
      obtain ⟨c, rest, rfl, hc⟩ := h
      obtain ⟨n, hn⟩ : ∃ n, point.toNat = n + 1 := ⟨point.toNat - 1, by omega⟩
      rw [hn]
      exact ⟨c, _, rfl, hc⟩

theorem begins_scientific {digits : Text} (h : Begins Reader.isDigit digits) (power : Int) :
    Begins Reader.isDigit (Double.scientificText digits power) := by
  obtain ⟨c, rest, rfl, hc⟩ := h
  simp only [Double.scientificText]
  split
  · exact ⟨c, _, rfl, hc⟩
  · exact ⟨c, _, rfl, hc⟩

theorem begins_unsigned (units : Nat) : Begins Reader.isDigit (Double.unsignedText units) := by
  rw [Double.unsignedText]
  split
  · exact ⟨'0', _, rfl, by decide⟩
  · rcases Double.shortest units with ⟨count, exponent⟩
    dsimp only
    split
    · exact begins_positional (begins_decimal count) _
    · exact begins_scientific (begins_decimal count) _

/-! ## Scalars -/

namespace Scalar

/-- What a scalar that is no text can begin with. -/
def isStart (c : CodePoint) : Bool := Reader.isDigit c || "-NTFinb".text.contains c

theorem isStart_of_isDigit (c : CodePoint) (h : Reader.isDigit c = true) : isStart c = true := by
  rw [isStart, h, Bool.true_or]

theorem begins_int (n : Int) : Begins isStart (signedDecimal n) := by
  cases n with
  | ofNat k => exact (begins_decimal k).weaken isStart_of_isDigit
  | negSucc k => exact ⟨_, _, rfl, by decide⟩

theorem begins_real (x : Double) : Begins isStart x.text := by
  cases x with
  | nan => exact ⟨_, _, rfl, by decide⟩
  | infinite negative =>
    cases negative with
    | true => exact ⟨_, _, rfl, by decide⟩
    | false => exact ⟨_, _, rfl, by decide⟩
  | finite negative units =>
    cases negative with
    | true => exact ⟨_, _, rfl, by decide⟩
    | false => exact (begins_unsigned units).weaken isStart_of_isDigit

theorem display?_begins {s : Scalar} (hs : ∀ t, s ≠ .text t) {t : Text} (h : s.display? = some t) :
    Begins isStart t := by
  cases s with
  | text u => exact absurd rfl (hs u)
  | null =>
    cases h
    exact ⟨_, _, rfl, by decide⟩
  | bool b =>
    cases h
    cases b with
    | true => exact ⟨_, _, rfl, by decide⟩
    | false => exact ⟨_, _, rfl, by decide⟩
  | int n =>
    have hn : intText? n = some t := h
    rw [intText?] at hn
    split at hn
    · cases hn
      exact begins_int n
    · cases hn
  | real x =>
    obtain rfl : x.text = t := Option.some.inj h
    exact begins_real x
  | bytes bs =>
    obtain rfl : bs.shown = t := Option.some.inj h
    exact ⟨_, _, rfl, by decide⟩
  | day d =>
    obtain rfl : d.text = t := Option.some.inj h
    exact (begins_day d).weaken isStart_of_isDigit
  | moment m =>
    obtain rfl : m.text = t := Option.some.inj h
    exact (begins_moment m).weaken isStart_of_isDigit

/-- A word that a scalar is written as is that text, unless it begins as other scalars do. -/
theorem eq_text_of_display? {s : Scalar} {t : Text} (h : s.display? = some t)
    (hstart : ∀ c ∈ t.head?, isStart c = false) : s = .text t := by
  by_cases hs : ∃ u, s = .text u
  · obtain ⟨u, rfl⟩ := hs
    cases h
    rfl
  · obtain ⟨c, rest, rfl, hc⟩ := display?_begins (fun u e => hs ⟨u, e⟩) h
    rw [hstart c rfl] at hc
    cases hc

theorem shown?_ne_nil {s : Scalar} {t : Text} (h : s.shown? = some t) : t ≠ [] := by
  have hbegins : (∀ u, s ≠ .text u) → s.display? = some t → t ≠ [] := by
    intro hs hd
    obtain ⟨c, rest, rfl, -⟩ := display?_begins hs hd
    exact List.cons_ne_nil c rest
  cases s with
  | text u =>
    obtain rfl : Text.shown u = t := Option.some.inj h
    exact List.cons_ne_nil _ _
  | day d =>
    obtain rfl : d.shown = t := Option.some.inj h
    exact List.cons_ne_nil _ _
  | moment m =>
    obtain rfl : m.shown = t := Option.some.inj h
    exact List.cons_ne_nil _ _
  | null | bool _ | int _ | real _ | bytes _ => exact hbegins (fun u e => by cases e) h

theorem display?_ne_nil {s : Scalar} {t : Text} (hs : s.isEmpty = false) (h : s.display? = some t) : t ≠ [] := by
  by_cases htext : ∃ u, s = .text u
  · obtain ⟨u, rfl⟩ := htext
    obtain rfl : u = t := Option.some.inj h
    exact fun e => by rw [e] at hs; cases hs
  · obtain ⟨c, rest, rfl, -⟩ := display?_begins (fun u e => htext ⟨u, e⟩) h
    exact List.cons_ne_nil c rest

end Scalar

/-! ## Collections -/

theorem Text.enclosed_ne_nil {before after : String} (h : before.text ≠ []) (parts : List Text) :
    enclosed before after parts ≠ [] := by
  obtain ⟨c, rest, hc⟩ := List.exists_cons_of_ne_nil h
  rw [enclosed, hc]
  exact List.cons_ne_nil _ _

theorem Text.listText_ne_nil (items : List Text) : listText items ≠ [] := enclosed_ne_nil (by decide) items

theorem Text.mapText_ne_nil (entries : List (Text × Text)) : mapText entries ≠ [] := enclosed_ne_nil (by decide) _

theorem Text.setText_ne_nil (members : List Text) : setText members ≠ [] := by
  rw [setText]
  split
  · decide
  · exact enclosed_ne_nil (by decide) members

theorem ne_nil_of_map {α : Type} {o : Option α} {make : α → Text} {t : Text} (hmake : ∀ x, make x ≠ [])
    (h : o.map make = some t) : t ≠ [] := by
  obtain ⟨x, -, rfl⟩ := Option.map_eq_some_iff.mp h
  exact hmake x

theorem GraphNode.againText_ne_nil (node : GraphNode) : node.againText ≠ [] := by
  cases node with
  | scalar _ | list _ | pairs _ | map _ | set _ => exact List.cons_ne_nil _ _

theorem Graph.shownFrom_ne_nil {g : Graph} {depth n : Nat} {around : List Nat} {t : Text}
    (h : g.shownFrom depth around n = some t) : t ≠ [] := by
  cases depth with
  | zero => cases h
  | succ depth =>
    rw [shownFrom] at h
    split at h
    · cases h
    · exact Scalar.shown?_ne_nil h
    · exact ne_nil_of_map Text.setText_ne_nil h
    · split at h
      · obtain rfl := Option.some.inj h
        exact GraphNode.againText_ne_nil _
      · dsimp only at h
        split at h
        · exact ne_nil_of_map Text.listText_ne_nil h
        · exact ne_nil_of_map Text.listText_ne_nil h
        · exact ne_nil_of_map Text.mapText_ne_nil h
        · cases h

namespace Value

theorem shown?_ne_nil {v : Value} {t : Text} (h : v.shown? = some t) : t ≠ [] := by
  cases v with
  | scalar s => exact Scalar.shown?_ne_nil h
  | list items => exact ne_nil_of_map Text.listText_ne_nil h
  | map entries => exact ne_nil_of_map Text.mapText_ne_nil h
  | set members => exact ne_nil_of_map Text.setText_ne_nil h
  | node g n => exact Graph.shownFrom_ne_nil h
  | pair a b =>
    rw [shown?] at h
    obtain ⟨x, -, h⟩ := Option.bind_eq_some_iff.mp h
    obtain ⟨y, -, h⟩ := Option.bind_eq_some_iff.mp h
    obtain rfl : Text.pairText x y = t := Option.some.inj h
    exact Text.enclosed_ne_nil (by decide) _

/-- What is not empty is not shown as nothing. -/
theorem display?_ne_nil {v : Value} {t : Text} (hv : v.isEmpty = false) (h : v.display? = some t) : t ≠ [] := by
  cases v with
  | scalar s => exact Scalar.display?_ne_nil hv h
  | list _ | map _ | pair _ _ | set _ | node _ _ => exact shown?_ne_nil h

end Value

end Errand
