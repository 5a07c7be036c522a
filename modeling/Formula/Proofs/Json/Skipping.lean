import Formula.Proofs.Json.Taken

/-! # Values that are skipped

What is skipped is not read, but where it ends has to be found. A text ends at its own closing quote
(`left_skipText`), and a list of texts at its own closing bracket (`left_skipValue_texts`). -/

namespace Formula.Json

variable {c : Char} {cs code rest : List Char} {brackets : List Bracket} {bracket : Bracket}

/-! ## Texts -/

theorem hexUnit_control (h : c.toNat < 0x20) (cs : List Char) :
    ∃ n, hexUnit ('0' :: '0' :: Nat.digitChar (c.toNat / 16) :: Nat.digitChar (c.toNat % 16) :: cs)
      = .ok n := by
  refine ⟨c.toNat, ?_⟩
  simp [hexUnit, hexDigits?_control _ h]

theorem left_skipText_short {d : Char} (h : (shortEscape? d).isSome = true) (cs : List Char) :
    left (skipText ('\\' :: d :: cs)) = left (skipText cs) := by
  have hd : d ≠ 'u' := by rintro rfl; cases h
  rw [skipText.eq_def]
  simp only [Char.reduceEq, if_false, if_true, if_neg hd, if_pos h]
  exact left_map fun _ => rfl

theorem left_skipText_unit {n : Nat} (h : hexUnit cs = .ok n) :
    left (skipText ('\\' :: 'u' :: cs)) = left (skipText (cs.drop 4)) := by
  rw [skipText.eq_def]
  simp only [Char.reduceEq, if_false, if_true, h]
  exact left_map fun _ => rfl

theorem left_skipText_plain (hquote : c ≠ '"') (hbackslash : c ≠ '\\') (h : 0x20 ≤ c.toNat)
    (cs : List Char) : left (skipText (c :: cs)) = left (skipText cs) := by
  rw [skipText.eq_def]
  simp only [if_neg hquote, if_neg hbackslash, if_neg (Nat.not_lt.mpr h)]
  exact left_map fun _ => rfl

theorem left_skipText_encoded (h : Encoded c code) (cs : List Char) :
    left (skipText (code ++ cs)) = left (skipText cs) := by
  cases h with
  | short h => exact left_skipText_short (by rw [h]; rfl) cs
  | unit h =>
    obtain ⟨n, hn⟩ := hexUnit_control h cs
    exact left_skipText_unit hn
  | plain hquote hbackslash h => exact left_skipText_plain hquote hbackslash h cs

theorem left_skipText (cs rest : List Char) :
    left (skipText (cs.flatMap encodeChar ++ '"' :: rest)) = some rest := by
  induction cs with
  | nil =>
    rw [List.flatMap_nil, List.nil_append, skipText.eq_def]
    rfl
  | cons c cs ih =>
    rw [List.flatMap_cons, List.append_assoc, left_skipText_encoded (encoded_encodeChar c), ih]

/-! ## One step -/

theorem left_skipWithin_value (brackets : List Bracket) (h : skipSpace cs = c :: rest) :
    left (skipWithin .value brackets cs) =
      if c = '[' then left (skipWithin .opened (.list :: brackets) rest)
      else if c = '\x7b' then left (skipWithin .opened (.object :: brackets) rest)
      else (left (skipScalar c rest)).bind fun after =>
        left (skipWithin .afterValue brackets after) := by
  rw [skipWithin.eq_def]
  simp only
  split
  · rename_i hnil
    rw [h] at hnil
    cases hnil
  · rename_i hcons
    rw [h] at hcons
    cases hcons
    split
    · exact left_map fun _ => rfl
    · split
      · exact left_map fun _ => rfl
      · cases skipScalar c rest with
        | error fault => rfl
        | ok after => exact left_map fun _ => rfl

theorem left_skipWithin_opened (bracket : Bracket) (outer : List Bracket)
    (h : skipSpace cs = c :: rest) :
    left (skipWithin .opened (bracket :: outer) cs) =
      if c = bracket.closing then left (skipWithin .afterValue outer rest)
      else (left (skipLabel bracket cs)).bind fun after =>
        left (skipWithin .value (bracket :: outer) after) := by
  rw [skipWithin.eq_def]
  simp only
  split
  · rename_i hnil
    rw [h] at hnil
    cases hnil
  · rename_i hcons
    rw [h] at hcons
    cases hcons
    split
    · exact left_map fun _ => rfl
    · cases skipLabel bracket cs with
      | error fault => rfl
      | ok after => exact left_map fun _ => rfl

theorem left_skipWithin_afterValue (bracket : Bracket) (outer : List Bracket)
    (h : skipSpace cs = c :: rest) :
    left (skipWithin .afterValue (bracket :: outer) cs) =
      if c = ',' then (left (skipLabel bracket rest)).bind fun after =>
        left (skipWithin .value (bracket :: outer) after)
      else if c = bracket.closing then left (skipWithin .afterValue outer rest)
      else none := by
  rw [skipWithin.eq_def]
  simp only
  split
  · rename_i hnil
    rw [h] at hnil
    cases hnil
  · rename_i hcons
    rw [h] at hcons
    cases hcons
    split
    · cases skipLabel bracket rest with
      | error fault => rfl
      | ok after => exact left_map fun _ => rfl
    · split
      · exact left_map fun _ => rfl
      · rfl

/-! ## Lists of texts -/

theorem left_skipWithin_nil (rest : List Char) :
    left (skipWithin .afterValue [] rest) = some rest := by
  rw [skipWithin]
  rfl

theorem left_skipWithin_text (brackets : List Bracket) (cs rest : List Char) :
    left (skipWithin .value brackets (quoteChars cs ++ rest))
      = left (skipWithin .afterValue brackets rest) := by
  have hscalar : left (skipScalar '"' (cs.flatMap encodeChar ++ '"' :: rest)) = some rest :=
    (left_map (g := Rest.succ) fun _ => rfl).trans (left_skipText cs rest)
  rw [left_skipWithin_value brackets (skipSpace_quoteChars cs rest), if_neg (by decide),
    if_neg (by decide), hscalar, Option.bind_some]

theorem left_skipWithin_comma (outer : List Bracket) (rest : List Char) :
    left (skipWithin .afterValue (.list :: outer) (',' :: rest))
      = left (skipWithin .value (.list :: outer) rest) := by
  rw [left_skipWithin_afterValue .list outer (skipSpace_cons rfl rest), if_pos rfl]
  rfl

theorem left_skipWithin_end (outer : List Bracket) (rest : List Char) :
    left (skipWithin .afterValue (.list :: outer) (']' :: rest))
      = left (skipWithin .afterValue outer rest) := by
  rw [left_skipWithin_afterValue .list outer (skipSpace_cons rfl rest), if_neg (by decide)]
  exact if_pos rfl

theorem left_skipWithin_laterTexts (texts : List (List Char)) (rest : List Char) :
    left (skipWithin .afterValue [.list]
      (texts.flatMap (fun cs => ',' :: quoteChars cs) ++ ']' :: rest)) = some rest := by
  induction texts with
  | nil => rw [List.flatMap_nil, List.nil_append, left_skipWithin_end, left_skipWithin_nil]
  | cons cs texts ih =>
    rw [List.flatMap_cons, List.append_assoc, List.cons_append, left_skipWithin_comma,
      left_skipWithin_text, ih]

/-- **A list of texts is skipped up to its closing bracket.** -/
theorem left_skipValue_texts (texts : List (List Char)) (rest : List Char) :
    left (skipValue ('[' :: (commaSeparated (texts.map quoteChars) ++ ']' :: rest))) = some rest := by
  rw [skipValue, left_skipWithin_value [] (skipSpace_cons rfl _), if_pos rfl]
  cases texts with
  | nil =>
    rw [List.map_nil, commaSeparated, List.nil_append,
      left_skipWithin_opened .list [] (skipSpace_cons rfl rest)]
    exact (if_pos rfl).trans (left_skipWithin_nil rest)
  | cons cs texts =>
    rw [List.map_cons, commaSeparated_cons, List.flatMap_map, List.append_assoc,
      left_skipWithin_opened .list [] (skipSpace_quoteChars cs _), if_neg (by decide)]
    exact (left_skipWithin_text [.list] cs _).trans (left_skipWithin_laterTexts texts rest)

end Formula.Json
