import DistributedStorage.Library.JsonText

/-! JSON documents, their text with `", "` and `": "` as separators, and the scanner that reads texts
back. Numbers are integers: the scanner refuses floats and the constants `NaN` and `Infinity`. -/

namespace DistributedStorage.Library

/-- An object keeps its members in the order of the text, repeated keys included. -/
inductive Json
  | null
  | bool (b : Bool)
  | int (n : ℤ)
  | str (s : String)
  | arr (items : List Json)
  | obj (members : List (String × Json))

namespace Json

mutual

def text : Json → List Char
  | .null => ['n', 'u', 'l', 'l']
  | .bool true => ['t', 'r', 'u', 'e']
  | .bool false => ['f', 'a', 'l', 's', 'e']
  | .int n => integer n
  | .str s => quote s.toList
  | .arr [] => ['[', ']']
  | .arr (j :: js) => '[' :: (text j ++ itemsText js)
  | .obj [] => ['\x7b', '\x7d']
  | .obj ((k, j) :: ms) => '\x7b' :: (quote k.toList ++ ':' :: ' ' :: (text j ++ membersText ms))

/-- What follows the first item of an array. -/
def itemsText : List Json → List Char
  | [] => [']']
  | j :: js => ',' :: ' ' :: (text j ++ itemsText js)

/-- What follows the first member of an object. -/
def membersText : List (String × Json) → List Char
  | [] => ['\x7d']
  | (k, j) :: ms => ',' :: ' ' :: (quote k.toList ++ ':' :: ' ' :: (text j ++ membersText ms))

end

def dumps (j : Json) : String := String.ofList (text j)

def isBlank (c : Char) : Bool := c = ' ' ∨ c = '\t' ∨ c = '\n' ∨ c = '\r'

def skipBlank (s : List Char) : List Char := s.dropWhile isBlank

mutual

def scanOnce : ℕ → List Char → Option (Json × List Char)
  | 0, _ => none
  | _ + 1, [] => none
  | n + 1, c :: s =>
    if c = '"' then (scanString s).map fun r => (.str r.1, r.2)
    else if c = '\x7b' then
      match skipBlank s with
      | '\x7d' :: s => some (.obj [], s)
      | s => (scanMembers n s).map fun r => (.obj r.1, r.2)
    else if c = '[' then
      match skipBlank s with
      | ']' :: s => some (.arr [], s)
      | s => (scanItems n s).map fun r => (.arr r.1, r.2)
    else if c = 'n' then (List.isPrefixOf? ['u', 'l', 'l'] s).map fun s => (.null, s)
    else if c = 't' then (List.isPrefixOf? ['r', 'u', 'e'] s).map fun s => (.bool true, s)
    else if c = 'f' then (List.isPrefixOf? ['a', 'l', 's', 'e'] s).map fun s => (.bool false, s)
    else (scanInteger (c :: s)).map fun r => (.int r.1, r.2)

/-- The items of an array that is not empty. -/
def scanItems : ℕ → List Char → Option (List Json × List Char)
  | 0, _ => none
  | n + 1, s =>
    match scanOnce n s with
    | none => none
    | some (j, s) =>
      match skipBlank s with
      | ']' :: s => some ([j], s)
      | ',' :: s => (scanItems n (skipBlank s)).map fun r => (j :: r.1, r.2)
      | _ => none

/-- The members of an object that is not empty. -/
def scanMembers : ℕ → List Char → Option (List (String × Json) × List Char)
  | 0, _ => none
  | n + 1, '"' :: s =>
    match scanString s with
    | none => none
    | some (k, s) =>
      match skipBlank s with
      | ':' :: s =>
        match scanOnce n (skipBlank s) with
        | none => none
        | some (j, s) =>
          match skipBlank s with
          | '\x7d' :: s => some ([(k, j)], s)
          | ',' :: s => (scanMembers n (skipBlank s)).map fun r => ((k, j) :: r.1, r.2)
          | _ => none
      | _ => none
  | _ + 1, _ => none

end

/-- Each step of the scanner reads a character, so the length of the text bounds its depth. -/
def loads (s : String) : Option Json :=
  match scanOnce s.toList.length (skipBlank s.toList) with
  | none => none
  | some (j, rest) => if skipBlank rest = [] then some j else none

lemma skipBlank_cons {c : Char} (s : List Char) (h : isBlank c = false) : skipBlank (c :: s) = c :: s := by
  simp [skipBlank, h]

@[simp] lemma skipBlank_space (s : List Char) : skipBlank (' ' :: s) = skipBlank s := rfl

lemma digit_ne {c d : Char} (h : c.isDigit = true) (hd : d.isDigit = false) : c ≠ d := by
  rintro rfl
  rw [h] at hd
  cases hd

lemma isBlank_digit {c : Char} (h : c.isDigit = true) : isBlank c = false := by
  have hne := fun d => digit_ne (d := d) h
  simp [isBlank, hne ' ', hne '\t', hne '\n', hne '\r']

/-- What the first character of a document's text can be. -/
lemma text_head (j : Json) : ∃ c s, text j = c :: s ∧ isBlank c = false ∧ c ≠ ']' := by
  cases j with
  | null => exact ⟨_, _, rfl, by decide, by decide⟩
  | bool b => cases b <;> exact ⟨_, _, rfl, by decide, by decide⟩
  | int n =>
    obtain ⟨c, s, hcs, rfl | hc⟩ := integer_head n
    · exact ⟨_, s, hcs, by decide, by decide⟩
    · exact ⟨c, s, hcs, isBlank_digit hc, digit_ne hc (by decide)⟩
  | str s => exact ⟨_, _, rfl, by decide, by decide⟩
  | arr js => cases js <;> exact ⟨_, _, rfl, by decide, by decide⟩
  | obj ms => cases ms <;> exact ⟨_, _, rfl, by decide, by decide⟩

lemma skipBlank_text (j : Json) (s : List Char) : skipBlank (text j ++ s) = text j ++ s := by
  obtain ⟨c, t, ht, hc, -⟩ := text_head j
  rw [ht, List.cons_append, skipBlank_cons _ hc]

lemma text_pos (j : Json) : 0 < (text j).length := by
  obtain ⟨c, t, ht, -⟩ := text_head j
  simp [ht]

lemma scanOnce_int (n : ℤ) (k : ℕ) {rest : List Char} (h : NoDigit rest) :
    scanOnce (k + 1) (integer n ++ rest) = some (.int n, rest) := by
  have hscan := scanInteger_integer n h
  obtain ⟨c, s, hcs, hc⟩ := integer_head n
  rw [hcs, List.cons_append] at hscan ⊢
  have hne : ∀ d : Char, d ≠ '-' → d.isDigit = false → c ≠ d := by
    intro d hd hdigit
    obtain rfl | hc := hc
    · exact hd.symm
    · exact digit_ne hc hdigit
  have h1 := hne '"' (by decide) (by decide)
  have h2 := hne '\x7b' (by decide) (by decide)
  have h3 := hne '[' (by decide) (by decide)
  have h4 := hne 'n' (by decide) (by decide)
  have h5 := hne 't' (by decide) (by decide)
  have h6 := hne 'f' (by decide) (by decide)
  simp only [scanOnce, if_neg h1, if_neg h2, if_neg h3, if_neg h4, if_neg h5, if_neg h6, hscan,
    Option.map_some]

lemma scanOnce_array {n : ℕ} {c : Char} {s t : List Char} (h : skipBlank s = c :: t) (hc : c ≠ ']') :
    scanOnce (n + 1) ('[' :: s) = (scanItems n (c :: t)).map fun r => (.arr r.1, r.2) := by
  rw [scanOnce.eq_def]
  simp [h, hc]

lemma scanOnce_object {n : ℕ} (s : List Char) :
    scanOnce (n + 1) ('\x7b' :: '"' :: s) =
      (scanMembers n ('"' :: s)).map fun r => (.obj r.1, r.2) := by
  rw [scanOnce.eq_def]
  rfl

mutual

lemma scanOnce_text : ∀ (j : Json) (n : ℕ) (rest : List Char), (text j).length ≤ n →
    NoDigit rest → scanOnce n (text j ++ rest) = some (j, rest)
  | j, 0, _, hn, _ => absurd (text_pos j) (by omega)
  | .null, _ + 1, _, _, _ => rfl
  | .bool true, _ + 1, _, _, _ => rfl
  | .bool false, _ + 1, _, _, _ => rfl
  | .int n, k + 1, _, _, hr => scanOnce_int n k hr
  | .str s, n + 1, rest, _, _ => by
    simp only [text, quote, List.cons_append, List.append_assoc, List.nil_append, scanOnce,
      if_true, scanString_quote, Option.map_some]
  | .arr [], _ + 1, _, _, _ => rfl
  | .arr (j :: js), n + 1, rest, hn, _ => by
    simp only [text, List.length_cons, List.length_append] at hn
    have hitems := scanItems_text j js n rest (by omega)
    obtain ⟨c, t, ht, -, hne⟩ := text_head j
    have hskip := skipBlank_text j (itemsText js ++ rest)
    rw [text, List.cons_append, List.append_assoc]
    rw [ht, List.cons_append] at hitems hskip ⊢
    rw [scanOnce_array hskip hne, hitems]
    rfl
  | .obj [], _ + 1, _, _, _ => rfl
  | .obj ((k, j) :: ms), n + 1, rest, hn, _ => by
    simp only [text, List.length_cons, List.length_append] at hn
    have hmembers := scanMembers_text k j ms n rest (by omega)
    rw [text, List.cons_append, List.append_assoc, List.cons_append, List.cons_append,
      List.append_assoc]
    simp only [quote, List.cons_append] at hmembers ⊢
    rw [scanOnce_object, hmembers]
    rfl

lemma scanItems_text : ∀ (j : Json) (js : List Json) (n : ℕ) (rest : List Char),
    (text j).length + (itemsText js).length ≤ n →
    scanItems n (text j ++ (itemsText js ++ rest)) = some (j :: js, rest)
  | j, js, 0, rest, hn => absurd (text_pos j) (by omega)
  | j, [], n + 1, rest, hn => by
    simp only [itemsText, List.length_cons] at hn
    have hj := scanOnce_text j n (']' :: rest) (by omega) rfl
    rw [scanItems, itemsText, List.cons_append, List.nil_append, hj]
    rfl
  | j, j' :: js, n + 1, rest, hn => by
    simp only [itemsText, List.length_cons, List.length_append] at hn
    have hj := scanOnce_text j n (',' :: ' ' :: (text j' ++ (itemsText js ++ rest))) (by omega) rfl
    have hjs := scanItems_text j' js n rest (by omega)
    rw [scanItems, itemsText, List.cons_append, List.cons_append, List.append_assoc, hj]
    simp only [skipBlank_cons (c := ',') _ rfl, skipBlank_space, skipBlank_text, hjs,
      Option.map_some]

lemma scanMembers_text : ∀ (k : String) (j : Json) (ms : List (String × Json)) (n : ℕ)
    (rest : List Char), (text j).length + (membersText ms).length ≤ n →
    scanMembers n (quote k.toList ++ ':' :: ' ' :: (text j ++ (membersText ms ++ rest))) =
      some ((k, j) :: ms, rest)
  | k, j, ms, 0, rest, hn => absurd (text_pos j) (by omega)
  | k, j, [], n + 1, rest, hn => by
    simp only [membersText, List.length_cons] at hn
    have hj := scanOnce_text j n ('\x7d' :: rest) (by omega) rfl
    simp only [quote, membersText, List.cons_append, List.append_assoc, List.nil_append,
      scanMembers, scanString_quote, skipBlank_cons (c := ':') _ rfl, skipBlank_space,
      skipBlank_text, hj]
    rfl
  | k, j, (k', j') :: ms, n + 1, rest, hn => by
    simp only [membersText, List.length_cons, List.length_append] at hn
    have hj := scanOnce_text j n
      (',' :: ' ' :: (quote k'.toList ++ ':' :: ' ' :: (text j' ++ (membersText ms ++ rest))))
      (by omega) rfl
    have hms := scanMembers_text k' j' ms n rest (by omega)
    have hskip : skipBlank (quote k'.toList ++ ':' :: ' ' :: (text j' ++ (membersText ms ++ rest))) =
        quote k'.toList ++ ':' :: ' ' :: (text j' ++ (membersText ms ++ rest)) := skipBlank_cons _ rfl
    simp only [membersText, List.cons_append, List.append_assoc]
    generalize quote k'.toList ++ ':' :: ' ' :: (text j' ++ (membersText ms ++ rest)) = q at hj hms hskip ⊢
    simp only [quote, List.cons_append, List.append_assoc, List.nil_append, scanMembers,
      scanString_quote, skipBlank_cons (c := ':') _ rfl, skipBlank_space, skipBlank_text, hj,
      skipBlank_cons (c := ',') _ rfl, hskip, hms, Option.map_some]

end

lemma loads_dumps (j : Json) : loads (dumps j) = some j := by
  have hscan := scanOnce_text j (text j).length [] le_rfl trivial
  have hskip := skipBlank_text j []
  rw [List.append_nil] at hscan hskip
  simp only [loads, dumps, String.toList_ofList, hskip, hscan]
  rfl

end Json

end DistributedStorage.Library
