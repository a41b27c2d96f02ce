import Mathlib.Data.List.Basic

/-!
# JSON text of an object of strings

Printing and parsing `{"key":"value",...}` where every member is a string.

* `escape` writes a character that may not stand in a JSON string as two characters;
* `print`, `parse`: the object as text and back;
* `parse_print`: parsing undoes printing.
-/

namespace JsonText

/-- The letter that follows the backslash for an escaped character. -/
def escapeCode : Char → Option Char
  | '"' => some '"'
  | '\\' => some '\\'
  | '\n' => some 'n'
  | '\r' => some 'r'
  | '\t' => some 't'
  | _ => none

/-- The character that an escape letter stands for. -/
def unescapeCode : Char → Option Char
  | '"' => some '"'
  | '\\' => some '\\'
  | '/' => some '/'
  | 'n' => some '\n'
  | 'r' => some '\r'
  | 't' => some '\t'
  | _ => none

/-- A character as it is written between quotes. -/
def escape (c : Char) : List Char :=
  match escapeCode c with
  | some d => ['\\', d]
  | none => [c]

/-- A string and its closing quote. -/
def printRest (s : List Char) : List Char := s.flatMap escape ++ ['"']

/-- A key and a value, with a colon between. -/
def printMember (m : List Char × List Char) : List Char :=
  '"' :: printRest m.1 ++ ':' :: '"' :: printRest m.2

/-- The members separated by commas, and the closing brace. -/
def printMembers : List (List Char × List Char) → List Char
  | [] => ['}']
  | [m] => printMember m ++ ['}']
  | m :: n :: ms => printMember m ++ ',' :: printMembers (n :: ms)

/-- An object whose values are strings. -/
def print (ms : List (List Char × List Char)) : List Char := '{' :: printMembers ms

/-! ## Parsing -/

/-- The rest of a string, behind its opening quote: its content and what follows it. -/
def parseRest (acc : List Char) : List Char → Option (List Char × List Char)
  | [] => none
  | [c] => if c = '"' then some (acc, []) else none
  | c :: d :: cs =>
    if c = '"' then some (acc, d :: cs)
    else if c = '\\' then
      match unescapeCode d with
      | some e => parseRest (acc ++ [e]) cs
      | none => none
    else parseRest (acc ++ [c]) (d :: cs)

/-- Text between quotes, and what follows it. -/
def parseString : List Char → Option (List Char × List Char)
  | '"' :: cs => parseRest [] cs
  | _ => none

/-- A key, a colon and a value, and what follows them. -/
def parseMember (cs : List Char) : Option ((List Char × List Char) × List Char) := do
  let (key, cs) ← parseString cs
  match cs with
  | ':' :: cs =>
    let (value, cs) ← parseString cs
    return ((key, value), cs)
  | _ => none

/-- Members up to the closing brace, at most `fuel` of them. -/
def parseMembers : ℕ → List Char → Option (List (List Char × List Char))
  | 0, _ => none
  | fuel + 1, cs => do
    let (m, cs) ← parseMember cs
    match cs with
    | ['}'] => return [m]
    | ',' :: cs => do
      let ms ← parseMembers fuel cs
      return m :: ms
    | _ => none

/-- The members of an object; nothing may follow it. -/
def parse : List Char → Option (List (List Char × List Char))
  | '{' :: cs => if cs = ['}'] then some [] else parseMembers cs.length cs
  | _ => none

/-! ## Parsing undoes printing -/

/-- What is written for a character is read as this character. -/
theorem unescapeCode_escapeCode {c d : Char} (h : escapeCode c = some d) :
    unescapeCode d = some c := by
  unfold escapeCode at h
  split at h
  all_goals first | (cases h; rfl) | cases h

/-- A character that is written as it is ends no string and begins no escape. -/
theorem escapeCode_none {c : Char} (h : escapeCode c = none) : c ≠ '"' ∧ c ≠ '\\' := by
  constructor
  · rintro rfl
    cases h
  · rintro rfl
    cases h

/-- Reading a string undoes writing it, whatever follows. -/
theorem parseRest_printRest (acc s rest : List Char) :
    parseRest acc (printRest s ++ rest) = some (acc ++ s, rest) := by
  induction s generalizing acc with
  | nil => cases rest <;> simp [printRest, parseRest]
  | cons c s ih =>
    -- the closing quote follows, so one more character can always be looked at
    obtain ⟨d, ds, hd⟩ : ∃ d ds, printRest s ++ rest = d :: ds := by
      cases h : printRest s ++ rest with
      | nil => simp [printRest] at h
      | cons d ds => exact ⟨d, ds, rfl⟩
    have hcons : printRest (c :: s) ++ rest = escape c ++ (printRest s ++ rest) := by
      simp [printRest]
    rw [hcons]
    -- a character that stands for itself, or one that is escaped
    cases he : escapeCode c with
    | none =>
      obtain ⟨hq, hb⟩ := escapeCode_none he
      have hesc : escape c = [c] := by rw [escape, he]
      rw [hesc, List.singleton_append, hd, parseRest, if_neg hq, if_neg hb, ← hd, ih,
        List.append_assoc, List.singleton_append]
    | some e =>
      have hesc : escape c = ['\\', e] := by rw [escape, he]
      rw [hesc, List.cons_append, List.singleton_append, parseRest, if_neg (by decide),
        if_pos rfl, unescapeCode_escapeCode he]
      simp only [ih, List.append_assoc, List.singleton_append]

/-- So for a member. -/
theorem parseMember_printMember (m : List Char × List Char) (rest : List Char) :
    parseMember (printMember m ++ rest) = some (m, rest) := by
  have hkey : parseString (printMember m ++ rest) =
      some (m.1, ':' :: '"' :: (printRest m.2 ++ rest)) := by
    have h := parseRest_printRest [] m.1 (':' :: '"' :: (printRest m.2 ++ rest))
    simpa [printMember, parseString] using h
  have hvalue : parseString ('"' :: (printRest m.2 ++ rest)) = some (m.2, rest) :=
    parseRest_printRest [] m.2 rest
  rw [parseMember, hkey]
  show (parseString ('"' :: (printRest m.2 ++ rest))).bind _ = _
  rw [hvalue]
  rfl

/-- So for a list of members; each takes one unit of fuel. -/
theorem parseMembers_printMembers {ms : List (List Char × List Char)} (hne : ms ≠ []) {fuel : ℕ}
    (hfuel : ms.length ≤ fuel) : parseMembers fuel (printMembers ms) = some ms := by
  induction ms using printMembers.induct generalizing fuel with
  | case1 => exact absurd rfl hne
  | case2 m =>
    obtain ⟨fuel, rfl⟩ : ∃ f, fuel = f + 1 := ⟨fuel - 1, by simp at hfuel; omega⟩
    rw [printMembers, parseMembers, parseMember_printMember]
    rfl
  | case3 m n ms ih =>
    obtain ⟨fuel, rfl⟩ : ∃ f, fuel = f + 1 := ⟨fuel - 1, by simp at hfuel; omega⟩
    have hlen : (n :: ms).length ≤ fuel := by simpa using hfuel
    rw [printMembers, parseMembers, parseMember_printMember]
    show (parseMembers fuel (printMembers (n :: ms))).bind _ = _
    rw [ih (by simp) hlen]
    rfl

/-- A member is at least as long as its quotes and its colon. -/
theorem length_le_printMembers (ms : List (List Char × List Char)) :
    ms.length ≤ (printMembers ms).length := by
  induction ms using printMembers.induct with
  | case1 => simp
  | case2 m => simp [printMembers]
  | case3 m n ms ih =>
    simp only [printMembers, List.length_append, List.length_cons] at ih ⊢
    omega

theorem head?_printMembers (m : List Char × List Char) (ms : List (List Char × List Char)) :
    (printMembers (m :: ms)).head? = some '"' := by
  cases ms with
  | nil => simp [printMembers, printMember]
  | cons n ms => simp [printMembers, printMember]

/-- Reading an object undoes writing it. -/
theorem parse_print (ms : List (List Char × List Char)) : parse (print ms) = some ms := by
  cases ms with
  | nil => rfl
  | cons m ms =>
    have hne : printMembers (m :: ms) ≠ ['}'] := by
      intro h
      have hhead := head?_printMembers m ms
      rw [h] at hhead
      exact absurd hhead (by decide)
    rw [print, parse, if_neg hne]
    exact parseMembers_printMembers (List.cons_ne_nil m ms) (length_le_printMembers (m :: ms))

end JsonText
