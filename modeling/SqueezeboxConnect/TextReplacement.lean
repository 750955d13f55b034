import SqueezeboxConnect.ConnectContext

/-!
# Replacing a part of a text

A text falls into fields at a separator. An occurrence that does not contain the
separator lies in one field, so replacing works field by field. A replacement that
is shorter than what it replaces changes a text exactly if there is an occurrence
in it.
-/

namespace TextReplacement

open Connect

variable {text replacement : List Char} {separator : Char}

/-- What is passed over is the rest of an occurrence that has been replaced. -/
theorem replaceFrom_drop (skip : Nat) (cs : List Char) :
    replaceFrom text replacement skip cs = replaceFrom text replacement 0 (cs.drop skip) := by
  induction cs generalizing skip with
  | nil => cases skip <;> rfl
  | cons c rest ih =>
    cases skip with
    | zero => rfl
    | succ skip =>
      rw [replaceFrom, List.drop_succ_cons]
      exact ih skip

variable {cs : List Char}

theorem replaceFrom_hit (nonempty : text ≠ []) (hit : text <+: cs) :
    replaceFrom text replacement 0 cs =
      replacement ++ replaceFrom text replacement 0 (cs.drop text.length) := by
  cases cs with
  | nil => exact absurd (List.prefix_nil.mp hit) nonempty
  | cons c rest =>
    rw [replaceFrom, if_pos (List.isPrefixOf_iff_prefix.mpr hit), replaceFrom_drop]
    obtain ⟨first, others, rfl⟩ := List.exists_cons_of_ne_nil nonempty
    rfl

theorem replaceFrom_miss {c : Char} {rest : List Char} (miss : ¬ text <+: c :: rest) :
    replaceFrom text replacement 0 (c :: rest) = c :: replaceFrom text replacement 0 rest := by
  rw [replaceFrom, if_neg fun hit => miss (List.isPrefixOf_iff_prefix.mp hit)]

/-- Where there is no occurrence, nothing is replaced. -/
theorem replaceFrom_eq_self (nothing : ¬ text <:+: cs) :
    replaceFrom text replacement 0 cs = cs := by
  induction cs with
  | nil => rfl
  | cons c rest ih =>
    rw [replaceFrom_miss fun hit => nothing hit.isInfix,
      ih fun occurs => nothing (occurs.trans (List.suffix_cons c rest).isInfix)]

section Shorter

variable (shorter : replacement.length < text.length)

include shorter

theorem replaceFrom_length_le (cs : List Char) :
    (replaceFrom text replacement 0 cs).length ≤ cs.length := by
  have nonempty : text ≠ [] := List.ne_nil_of_length_pos (by omega)
  -- an occurrence is passed over at once, so the induction is on the length
  induction length : cs.length using Nat.strongRecOn generalizing cs with
  | ind n ih =>
    by_cases hit : text <+: cs
    · have long := hit.length_le
      have rest := ih (cs.drop text.length).length (by rw [List.length_drop]; omega) _ rfl
      rw [replaceFrom_hit nonempty hit, List.length_append]
      rw [List.length_drop] at rest
      omega
    · cases cs with
      | nil => exact Nat.zero_le _
      | cons c rest =>
        have smaller := ih rest.length (by simp only [List.length_cons] at length; omega) rest rfl
        rw [replaceFrom_miss hit, List.length_cons]
        simp only [List.length_cons] at length
        omega

theorem replaceFrom_length_lt (occurs : text <:+: cs) :
    (replaceFrom text replacement 0 cs).length < cs.length := by
  have nonempty : text ≠ [] := List.ne_nil_of_length_pos (by omega)
  induction cs with
  | nil => exact absurd (List.infix_nil.mp occurs) nonempty
  | cons c rest ih =>
    by_cases hit : text <+: c :: rest
    · have long := hit.length_le
      have others := replaceFrom_length_le shorter ((c :: rest).drop text.length)
      rw [replaceFrom_hit nonempty hit, List.length_append]
      rw [List.length_drop] at others
      omega
    · have later : text <:+: rest := (List.infix_cons_iff.mp occurs).resolve_left hit
      rw [replaceFrom_miss hit, List.length_cons, List.length_cons]
      exact Nat.succ_lt_succ (ih later)

theorem replaceFrom_eq_self_iff (cs : List Char) :
    replaceFrom text replacement 0 cs = cs ↔ ¬ text <:+: cs := by
  constructor
  · intro same occurs
    have less := replaceFrom_length_lt shorter occurs
    rw [same] at less
    exact Nat.lt_irrefl _ less
  · exact replaceFrom_eq_self

end Shorter

section Fields

variable (nonempty : text ≠ []) (apart : separator ∉ text)

include apart

/-- An occurrence without the separator ends before it. -/
theorem prefix_field {field rest : List Char} (hit : text <+: field ++ separator :: rest) :
    text <+: field := by
  rcases List.prefix_or_prefix_of_prefix hit (List.prefix_append field _) with within | beyond
  · exact within
  · obtain ⟨more, rfl⟩ := beyond
    have next := (List.prefix_append_right_inj field).mp hit
    cases more with
    | nil => exact (List.append_nil field).symm ▸ List.prefix_rfl
    | cons c more =>
      rw [(List.cons_prefix_cons.mp next).1] at apart
      exact absurd (List.mem_append_right field List.mem_cons_self) apart

include nonempty

theorem replaceFrom_field (field rest : List Char) :
    replaceFrom text replacement 0 (field ++ separator :: rest) =
      replaceFrom text replacement 0 field ++ separator ::
        replaceFrom text replacement 0 rest := by
  induction length : field.length using Nat.strongRecOn generalizing field with
  | ind n ih =>
    by_cases hit : text <+: field
    · have long := hit.length_le
      have filled := List.length_pos_of_ne_nil nonempty
      rw [replaceFrom_hit nonempty hit, replaceFrom_hit nonempty (hit.trans
        (List.prefix_append field _)), List.drop_append_of_le_length long,
        ih _ (by rw [List.length_drop]; omega) _ rfl, List.append_assoc]
    · have miss : ¬ text <+: field ++ separator :: rest := fun hit' => hit (prefix_field apart hit')
      cases field with
      | nil => exact replaceFrom_miss miss
      | cons c field =>
        rw [List.cons_append] at miss
        rw [List.cons_append, replaceFrom_miss miss, replaceFrom_miss hit,
          ih _ (by rw [← length]; exact Nat.lt_succ_self _) _ rfl, List.cons_append]

theorem replaceFrom_intercalate (fields : List (List Char)) :
    replaceFrom text replacement 0 ([separator].intercalate fields) =
      [separator].intercalate (fields.map (replaceFrom text replacement 0)) := by
  induction fields with
  | nil => rfl
  | cons field fields ih =>
    cases fields with
    | nil => simp
    | cons next fields =>
      rw [List.intercalate_cons_cons, List.append_assoc, List.singleton_append,
        replaceFrom_field nonempty apart, ih]
      simp

end Fields

/-- No character comes up that is neither in the text nor in the replacement. -/
theorem mem_replaceFrom {c : Char} (skip : Nat) (cs : List Char)
    (found : c ∈ replaceFrom text replacement skip cs) : c ∈ replacement ∨ c ∈ cs := by
  induction cs generalizing skip with
  | nil => cases skip <;> exact absurd found List.not_mem_nil
  | cons d rest ih =>
    cases skip with
    | succ skip => exact (ih skip found).imp_right (List.mem_cons_of_mem d)
    | zero =>
      rw [replaceFrom] at found
      split at found
      · rcases List.mem_append.mp found with new | old
        · exact Or.inl new
        · exact (ih _ old).imp_right (List.mem_cons_of_mem d)
      · rcases List.mem_cons.mp found with here | old
        · exact Or.inr (here ▸ List.mem_cons_self)
        · exact (ih _ old).imp_right (List.mem_cons_of_mem d)

end TextReplacement
