/-
  Errand.Proofs.Files.Paths — how many paths there are, and their normal form.

  A path that leads to a file has at most `maxPathSize` bytes, and each of its code points takes
  one byte at least. So of different paths only so many lead to files (`Disk.Room`), and whoever
  goes from file to file without coming back comes to an end.

  The absolute normal form of a path is its own (`Path.absolute_absolute`).
-/

import Errand.Files.Disk
import Mathlib.Data.List.Perm.Subperm
import Mathlib.Data.Nat.Digits.Lemmas

namespace Errand

/-! ## Texts as numbers -/

namespace Text

/-- The digits of a text are the numbers of its code points, none of them zero. -/
def ordinal (t : Text) : Nat := Nat.ofDigits (CodePoint.count + 1) (t.map fun c => c.toNat + 1)

theorem digit_lt {t : Text} : ∀ n ∈ t.map fun c => c.toNat + 1, n < CodePoint.count + 1 := by
  intro n hn
  obtain ⟨c, -, rfl⟩ := List.mem_map.mp hn
  exact Nat.succ_lt_succ c.toNat_lt

theorem ordinal_lt {t : Text} {n : Nat} (h : t.length ≤ n) : t.ordinal < (CodePoint.count + 1) ^ n := by
  have hlt := Nat.ofDigits_lt_base_pow_length (b := (CodePoint.count + 1)) (by decide) (digit_lt (t := t))
  rw [List.length_map] at hlt
  exact lt_of_lt_of_le hlt (Nat.pow_le_pow_right (by decide) h)

theorem ordinal_injective : Function.Injective ordinal := by
  intro t u h
  have hdigits (t : Text) : (CodePoint.count + 1).digits t.ordinal = t.map fun c => c.toNat + 1 := by
    refine Nat.digits_ofDigits (CodePoint.count + 1) (by decide) _ digit_lt fun hne => ?_
    obtain ⟨c, -, hc⟩ := List.mem_map.mp (List.getLast_mem hne)
    rw [← hc]
    exact Nat.succ_ne_zero _
  have hmap := (hdigits t).symm.trans ((congrArg _ h).trans (hdigits u))
  exact List.map_injective_iff.mpr (fun c c' hc => CodePoint.toNat_inj (Nat.succ.inj hc)) hmap

/-- There are only so many short texts. -/
theorem length_le_of_nodup {ts : List Text} {n : Nat} (h : ts.Nodup) (hshort : ∀ t ∈ ts, t.length ≤ n) :
    ts.length ≤ (CodePoint.count + 1) ^ n := by
  have hnodup : (ts.map ordinal).Nodup := h.map ordinal_injective
  have hsub : ts.map ordinal ⊆ List.range ((CodePoint.count + 1) ^ n) := by
    intro k hk
    obtain ⟨t, ht, rfl⟩ := List.mem_map.mp hk
    exact List.mem_range.mpr (ordinal_lt (hshort t ht))
  have hlength := (hnodup.subperm hsub).length_le
  rwa [List.length_map, List.length_range] at hlength

end Text

/-! ## Paths to files -/

namespace Disk

theorem toList_ne_nil {bs : ByteArray} (h : bs.size ≠ 0) : bs.toList ≠ [] := by
  have hloop (i : Nat) (passed : List UInt8) : passed.length ≤ (ByteArray.toList.loop bs i passed).length := by
    fun_induction ByteArray.toList.loop bs i passed with
    | case1 i passed _ ih => exact Nat.le_of_succ_le ih
    | case2 i passed _ => exact Nat.le_of_eq List.length_reverse.symm
  have hone := hloop 1 [bs.get! 0]
  rw [ByteArray.toList, ByteArray.toList.loop, if_pos (Nat.pos_of_ne_zero h)]
  exact List.ne_nil_of_length_pos hone

theorem bytesOf?_ne_nil {c : CodePoint} {bs : List UInt8} (h : bytesOf? c = some bs) : bs ≠ [] := by
  cases c with
  | char c =>
    cases h
    refine toList_ne_nil ?_
    rw [String.toUTF8_eq_toByteArray, String.size_toByteArray, String.utf8ByteSize_singleton]
    exact Nat.ne_of_gt c.utf8Size_pos
  | half offset =>
    rw [bytesOf?] at h
    split at h
    · cases h
      exact List.cons_ne_nil _ _
    · cases h

theorem length_le_byteSize {p : Text} (h : p.all isEncodable = true) : p.length ≤ byteSize p := by
  induction p with
  | nil => exact Nat.le_refl 0
  | cons c p ih =>
    rw [List.all_cons, Bool.and_eq_true] at h
    obtain ⟨bs, hbs⟩ := Option.isSome_iff_exists.mp h.1
    have hpos := List.length_pos_of_ne_nil (bytesOf?_ne_nil hbs)
    have hsize : byteSize (c :: p) = bs.length + byteSize p := by
      simp [byteSize, encoded, hbs]
    rw [hsize, List.length_cons]
    have := ih h.2
    omega

/-- A path that leads somewhere is short. -/
theorem length_le_of_resolve {d : Disk} {p : Text} {place : List Text} (h : d.resolve p = .ok place) :
    p.length ≤ maxPathSize := by
  rw [resolve] at h
  split at h
  · cases h
  · rename_i hall
    have hall : p.all isEncodable = true := by simpa using hall
    split at h
    · cases h
    · split at h
      · cases h
      · split at h
        · cases h
        · rename_i hsize
          exact (length_le_byteSize hall).trans (Nat.le_of_not_lt hsize)

theorem length_le_of_isFile {d : Disk} {p : Text} (h : d.isFile p = true) : p.length ≤ maxPathSize := by
  rw [isFile] at h
  rcases hplace : d.resolve p with f | place
  · rw [hplace] at h
    cases h
  · exact length_le_of_resolve hplace

/-! ## Room for more files -/

/-- At most so many different paths lead to files, those given left out. -/
def Room (d : Disk) (passed : List Text) (n : Nat) : Prop :=
  ∀ paths : List Text, paths.Nodup → (∀ p ∈ paths, d.isFile p = true ∧ p ∉ passed) → paths.length ≤ n

variable {d : Disk} {passed : List Text} {n : Nat}

theorem room_pathCount : Room d passed pathCount := by
  intro paths hnodup hfiles
  have hshort : ∀ p ∈ paths, p.length ≤ maxPathSize := fun p hp => length_le_of_isFile (hfiles p hp).1
  -- With a variable for the exponent the power stays as it is written.
  unfold pathCount
  generalize maxPathSize = n at hshort ⊢
  exact Text.length_le_of_nodup hnodup hshort

theorem Room.mono {m : Nat} (h : Room d passed n) (hm : n ≤ m) : Room d passed m :=
  fun paths hnodup hfiles => (h paths hnodup hfiles).trans hm

theorem Room.not_zero (h : Room d passed 0) {p : Text} (hp : d.isFile p = true) (hnew : p ∉ passed) : False := by
  have hlength := h [p] (List.nodup_singleton p) fun q hq => by
    cases List.mem_singleton.mp hq
    exact ⟨hp, hnew⟩
  exact Nat.not_succ_le_zero 0 hlength

/-- With each file that is passed there is room for one less. -/
theorem Room.pass (h : Room d passed (n + 1)) {p : Text} (hp : d.isFile p = true) (hnew : p ∉ passed) :
    Room d (p :: passed) n := by
  intro paths hnodup hfiles
  have hne : p ∉ paths := fun hmem => (hfiles p hmem).2 List.mem_cons_self
  have hlength := h (p :: paths) (hnodup.cons hne) fun q hq => by
    rcases List.mem_cons.mp hq with rfl | hq
    · exact ⟨hp, hnew⟩
    · exact ⟨(hfiles q hq).1, fun hmem => (hfiles q hq).2 (List.mem_cons_of_mem _ hmem)⟩
  exact Nat.le_of_succ_le_succ hlength

end Disk

/-! ## Normal form -/

namespace Path

/-- A name of an item, which a step leaves in a path. -/
structure IsName (n : Text) : Prop where
  ne_nil : n ≠ []
  no_slash : .char '/' ∉ n
  ne_dot : n ≠ ".".text
  ne_dots : n ≠ "..".text

theorem parts_ne_nil (t : Text) : parts t ≠ [] := by
  cases t with
  | nil => exact List.cons_ne_nil _ _
  | cons c t =>
    rw [parts]
    split
    · exact List.cons_ne_nil _ _
    · split
      · exact List.cons_ne_nil _ _
      · exact List.cons_ne_nil _ _

theorem parts_slash (t : Text) : parts (.char '/' :: t) = [] :: parts t := by
  obtain ⟨part, more, he⟩ := List.exists_cons_of_ne_nil (parts_ne_nil t)
  rw [parts, he]
  rfl

theorem parts_cons {c : CodePoint} (hc : c ≠ .char '/') {t part : Text} {more : List Text} (h : parts t = part :: more) :
    parts (c :: t) = (c :: part) :: more := by
  rw [parts, h]
  exact if_neg hc

theorem no_slash_of_mem_parts {t part : Text} (h : part ∈ parts t) : .char '/' ∉ part := by
  induction t generalizing part with
  | nil =>
    cases List.mem_singleton.mp h
    exact List.not_mem_nil
  | cons c t ih =>
    by_cases hc : c = .char '/'
    · subst hc
      rw [parts_slash] at h
      rcases List.mem_cons.mp h with rfl | h
      · exact List.not_mem_nil
      · exact ih h
    · obtain ⟨first, more, he⟩ := List.exists_cons_of_ne_nil (parts_ne_nil t)
      rw [parts_cons hc he] at h
      rcases List.mem_cons.mp h with rfl | h
      · intro hmem
        rcases List.mem_cons.mp hmem with hslash | hmem
        · exact hc hslash.symm
        · exact ih (he ▸ List.mem_cons_self) hmem
      · exact ih (he ▸ List.mem_cons_of_mem _ h)

theorem parts_append {n t part : Text} {more : List Text} (hn : .char '/' ∉ n) (h : parts t = part :: more) :
    parts (n ++ t) = (n ++ part) :: more := by
  induction n with
  | nil => exact h
  | cons c n ih =>
    rw [List.mem_cons, not_or] at hn
    exact parts_cons (Ne.symm hn.1) (ih hn.2)

theorem parts_join {n : Text} {ns : List Text} (h : ∀ m ∈ n :: ns, .char '/' ∉ m) :
    parts (Text.join "/".text (n :: ns)) = n :: ns := by
  induction ns generalizing n with
  | nil =>
    have hparts := parts_append (h n List.mem_cons_self) (t := []) rfl
    rw [List.append_nil] at hparts
    show parts (n ++ []) = _
    rw [List.append_nil]
    exact hparts
  | cons m ns ih =>
    have hrest := ih fun k hk => h k (List.mem_cons_of_mem _ hk)
    rw [Text.join_cons_cons, List.append_assoc]
    show parts (n ++ .char '/' :: Text.join "/".text (m :: ns)) = _
    rw [parts_append (h n List.mem_cons_self) (parts_slash _), List.append_nil, hrest]

theorem step_name {passed : List Text} {n : Text} (h : IsName n) : step passed n = n :: passed := by
  rw [step, if_neg, if_neg h.ne_dots]
  simp [h.ne_nil, h.ne_dot]

theorem step_names {passed : List Text} {part : Text} (hpassed : ∀ n ∈ passed, IsName n) (hpart : .char '/' ∉ part) :
    ∀ n ∈ step passed part, IsName n := by
  rw [step]
  split
  · exact hpassed
  · rename_i hpresent
    rw [Bool.or_eq_true, not_or, List.isEmpty_iff, decide_eq_true_eq] at hpresent
    split
    · exact fun n hn => hpassed n (List.mem_of_mem_drop hn)
    · rename_i hdots
      intro n hn
      rcases List.mem_cons.mp hn with rfl | hn
      · exact ⟨hpresent.1, hpart, hpresent.2, hdots⟩
      · exact hpassed n hn

theorem isName_of_mem_names {p n : Text} (h : n ∈ names p) : IsName n := by
  have hsteps (ps : List Text) (passed : List Text) (hps : ∀ part ∈ ps, .char '/' ∉ part)
      (hpassed : ∀ m ∈ passed, IsName m) : ∀ m ∈ ps.foldl step passed, IsName m := by
    induction ps generalizing passed with
    | nil => exact hpassed
    | cons part ps ih =>
      refine ih (step passed part) (fun q hq => hps q (List.mem_cons_of_mem _ hq)) ?_
      exact step_names hpassed (hps part List.mem_cons_self)
  exact hsteps _ [] (fun _ => no_slash_of_mem_parts) (fun _ hm => by cases hm) n (List.mem_reverse.mp h)

theorem names_slash (t : Text) : names (.char '/' :: t) = names t := by
  rw [names, parts_slash, List.foldl_cons]
  rfl

theorem names_join {ns : List Text} (h : ∀ n ∈ ns, IsName n) : names (Text.join "/".text ns) = ns := by
  have hsteps (passed : List Text) : ns.foldl step passed = ns.reverse ++ passed := by
    induction ns generalizing passed with
    | nil => rfl
    | cons n ns ih =>
      rw [List.foldl_cons, step_name (h n List.mem_cons_self), ih fun m hm => h m (List.mem_cons_of_mem _ hm),
        List.reverse_cons, List.append_assoc]
      rfl
  cases ns with
  | nil => rfl
  | cons n ns =>
    rw [names, parts_join fun m hm => (h m hm).no_slash, hsteps, List.append_nil, List.reverse_reverse]

theorem head_join_names {ns : List Text} (h : ∀ n ∈ ns, IsName n) : (Text.join "/".text ns).head? ≠ some (.char '/') := by
  cases ns with
  | nil => exact fun hno => by cases hno
  | cons n ns =>
    have hn := h n List.mem_cons_self
    obtain ⟨c, n', rfl⟩ := List.exists_cons_of_ne_nil hn.ne_nil
    have hhead : (Text.join "/".text ((c :: n') :: ns)).head? = some c := by
      cases ns with
      | nil => rfl
      | cons m ns => rfl
    rw [hhead]
    intro hc
    exact hn.no_slash (Option.some.inj hc ▸ List.mem_cons_self)

theorem rootOf_eq (p : Text) : rootOf p = "/".text ∨ rootOf p = "//".text := by
  unfold rootOf
  split
  · exact Or.inl rfl
  · exact Or.inr rfl
  · exact Or.inl rfl

theorem rootOf_slash {t : Text} (h : t.head? ≠ some (.char '/')) : rootOf (.char '/' :: t) = "/".text := by
  unfold rootOf
  split
  · rfl
  · rename_i heq
    cases heq
    exact absurd rfl h
  · rfl

theorem rootOf_slashes {t : Text} (h : t.head? ≠ some (.char '/')) : rootOf (.char '/' :: .char '/' :: t) = "//".text := by
  unfold rootOf
  split
  · rename_i hslashes
    cases hslashes
    exact absurd rfl h
  · rfl
  · rename_i hno
    exact absurd rfl (hno t)

theorem join_of_isAbsolute {base p : Text} (h : isAbsolute p = true) : join base p = p := if_pos h

/-- The absolute normal form of a path is its own, wherever it is seen from. -/
theorem absolute_absolute (base base' p : Text) : absolute base (absolute base' p) = absolute base' p := by
  have hnames : ∀ n ∈ names (join base' p), IsName n := fun _ => isName_of_mem_names
  have hhead := head_join_names hnames
  have hjoin := names_join hnames
  rw [absolute, absolute]
  generalize names (join base' p) = ns at hhead hjoin
  rcases rootOf_eq (join base' p) with hroot | hroot
  · rw [hroot]
    show rootOf (join base (.char '/' :: Text.join "/".text ns)) ++
      Text.join "/".text (names (join base (.char '/' :: Text.join "/".text ns))) = _
    rw [join_of_isAbsolute rfl, rootOf_slash hhead, names_slash, hjoin]
  · rw [hroot]
    show rootOf (join base (.char '/' :: .char '/' :: Text.join "/".text ns)) ++
      Text.join "/".text (names (join base (.char '/' :: .char '/' :: Text.join "/".text ns))) = _
    rw [join_of_isAbsolute rfl, rootOf_slashes hhead, names_slash, names_slash, hjoin]

end Path

end Errand
