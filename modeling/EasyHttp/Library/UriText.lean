import Mathlib.Data.List.DropRight
import Mathlib.Data.List.TakeWhile
import Mathlib.Data.UInt

/-!
# URIs and their escapes

A URI is a text that is split at its delimiters; an escape is a percent sign with two hex digits
and stands for one character. A parser that replaces escapes before it splits may find delimiters
that were not there.

* `decode`: a text with its escapes replaced;
* `parse`: the parts of a text;
* `AbsoluteUri`: the parts of a well-formed absolute URI, and `AbsoluteUri.text`;
* `AbsoluteUri.parse_text`: parsing undoes writing;
* `AbsoluteUri.sameTarget_decoded_iff`: when the decoded text still has the same parts.
-/

namespace UriText

/-! ## Escapes -/

/-- The number of a hex digit, in either case. -/
def hexValue (c : Char) : Option ℕ :=
  if '0' ≤ c ∧ c ≤ '9' then some (c.toNat - '0'.toNat)
  else if 'a' ≤ c ∧ c ≤ 'f' then some (c.toNat - 'a'.toNat + 10)
  else if 'A' ≤ c ∧ c ≤ 'F' then some (c.toNat - 'A'.toNat + 10)
  else none

/-- `none` where a percent sign is not followed by two hex digits. -/
def decode : List Char → Option (List Char)
  | [] => some []
  | c :: cs =>
    if c = '%' then
      match cs with
      | hi :: lo :: rest =>
        match hexValue hi, hexValue lo with
        | some high, some low => (decode rest).map (Char.ofNat (16 * high + low) :: ·)
        | _, _ => none
      | _ => none
    else (decode cs).map (c :: ·)

/-- What a text stands for whose escapes are well-formed. -/
def decoded (text : List Char) : List Char := (decode text).getD []

variable {xs ys zs : List Char} {c : Char}

/-- A text with well-formed escapes stands for one text. -/
theorem decode_eq_decoded (h : (decode xs).isSome) : decode xs = some (decoded xs) := by
  unfold decoded
  rw [Option.eq_some_iff_get_eq]
  exact ⟨h, (Option.getD_eq_iff.mpr (.inl (Option.some_get h).symm)).symm⟩

theorem decode_cons (h : c ≠ '%') : decode (c :: xs) = (decode xs).map (c :: ·) := by
  rcases xs with _ | ⟨hi, _ | ⟨lo, rest⟩⟩ <;> simp [decode, h]

/-- Decoding goes from left to right. -/
theorem decode_append (h : decode xs = some ys) (zs : List Char) :
    decode (xs ++ zs) = (decode zs).map (ys ++ ·) := by
  fun_induction decode xs generalizing ys with
  | case1 =>
    cases h
    simp
  | case2 hi lo rest high low hhigh hlow ih =>
    obtain ⟨tail, htail, rfl⟩ := Option.map_eq_some_iff.mp h
    rw [List.cons_append, List.cons_append, List.cons_append, decode, if_pos rfl]
    simp only [hhigh, hlow, ih htail, Option.map_map]
    rfl
  | case3 => cases h
  | case4 => cases h
  | case5 c cs hc ih =>
    obtain ⟨tail, htail, rfl⟩ := Option.map_eq_some_iff.mp h
    rw [List.cons_append, decode_cons hc, ih htail, Option.map_map]
    rfl

/-- Without a percent sign nothing is decoded. -/
theorem decode_of_not_mem (h : '%' ∉ xs) : decode xs = some xs := by
  induction xs with
  | nil => rfl
  | cons c xs ih =>
    rw [List.mem_cons, not_or] at h
    rw [decode_cons (Ne.symm h.1), ih h.2]
    rfl

/-- Decoding makes no text longer. -/
theorem length_decode_le (h : decode xs = some ys) : ys.length ≤ xs.length := by
  fun_induction decode xs generalizing ys with
  | case1 =>
    cases h
    exact Nat.le_refl _
  | case2 hi lo rest high low hhigh hlow ih =>
    obtain ⟨tail, htail, rfl⟩ := Option.map_eq_some_iff.mp h
    have hle := ih htail
    simp only [List.length_cons]
    omega
  | case3 => cases h
  | case4 => cases h
  | case5 c cs hc ih =>
    obtain ⟨tail, htail, rfl⟩ := Option.map_eq_some_iff.mp h
    have hle := ih htail
    simp only [List.length_cons]
    omega

/-- Each escape makes the text shorter. -/
theorem length_decode_lt (h : decode xs = some ys) (hmem : '%' ∈ xs) :
    ys.length < xs.length := by
  fun_induction decode xs generalizing ys with
  | case1 => cases hmem
  | case2 hi lo rest high low hhigh hlow ih =>
    obtain ⟨tail, htail, rfl⟩ := Option.map_eq_some_iff.mp h
    have hle := length_decode_le htail
    simp only [List.length_cons]
    omega
  | case3 => cases h
  | case4 => cases h
  | case5 c cs hc ih =>
    obtain ⟨tail, htail, rfl⟩ := Option.map_eq_some_iff.mp h
    have hlt := ih htail ((List.mem_cons.mp hmem).resolve_left (Ne.symm hc))
    simp only [List.length_cons]
    omega

/-- The front of a text stands for the whole text only if it is all of it and has no escape. -/
theorem decode_takeWhile_eq_iff {p : Char → Bool} :
    decode (xs.takeWhile p) = some xs ↔ (∀ c ∈ xs, p c = true) ∧ '%' ∉ xs := by
  constructor
  · intro h
    have hle := length_decode_le h
    have hfront := List.takeWhile_prefix (l := xs) p
    have hwhole : xs.takeWhile p = xs := hfront.eq_of_length_le hle
    refine ⟨List.takeWhile_eq_self_iff.mp hwhole, fun hmem => ?_⟩
    rw [hwhole] at h
    have hlt := length_decode_lt h hmem
    omega
  · intro h
    rw [List.takeWhile_eq_self_iff.mpr h.1, decode_of_not_mem h.2]

/-- The front of what a text stands for is the text itself only if there is no escape. -/
theorem not_mem_of_takeWhile_decoded {p : Char → Bool} (h : (decode xs).isSome)
    (heq : (decoded xs).takeWhile p = xs) : '%' ∉ xs := by
  intro hmem
  have hlt := length_decode_lt (decode_eq_decoded h) hmem
  have hle := (List.takeWhile_sublist (l := decoded xs) p).length_le
  rw [heq] at hle
  omega

/-! ## Splitting a text -/

/-- What a parser knows about ports: the one of a scheme, and how a number is read. -/
structure Ports where
  wellKnown : List Char → UInt16
  number : List Char → Option UInt16

/-- The path is decoded, the query is not. -/
structure Parts where
  scheme : List Char
  host : List Char
  port : UInt16
  path : List Char
  query : List Char
deriving DecidableEq

/-- What does not end an authority. -/
def isAuthorityChar (c : Char) : Bool := c ≠ '/' && c ≠ '?' && c ≠ '#'

/-- What does not end a path. -/
def isPathChar (c : Char) : Bool := c ≠ '?' && c ≠ '#'

/-- What does not end a query. -/
def isQueryChar (c : Char) : Bool := c ≠ '#'

/-- The host at the front of a text, and what follows it; an address in brackets has its end. -/
def hostOf (part : List Char) : Option (List Char × List Char) :=
  if part.head? = some '[' then
    match part.dropWhile (· ≠ ']') with
    | [] => none
    | close :: rest => some (part.takeWhile (· ≠ ']') ++ [close], rest)
  else some (part.takeWhile (· ≠ ':'), part.dropWhile (· ≠ ':'))

/-- The port behind a host; an empty one is that of the scheme. -/
def portOf (ports : Ports) (scheme : List Char) : List Char → Option UInt16
  | ':' :: number => if number = [] then some (ports.wellKnown scheme) else ports.number number
  | _ => some (ports.wellKnown scheme)

/-- Host names do not depend on the case. -/
def hostAndPort (ports : Ports) (scheme part : List Char) : Option (List Char × UInt16) :=
  match hostOf part with
  | some (host, rest) => (portOf ports scheme rest).map fun port => (host.map Char.toLower, port)
  | none => none

/-- The path at the front of a text, as it is written. -/
def pathText (text : List Char) : List Char := text.takeWhile isPathChar

/-- The query behind the path, as it is written. -/
def queryText (text : List Char) : List Char :=
  match text.dropWhile isPathChar with
  | '?' :: rest => rest.takeWhile isQueryChar
  | _ => []

/-- What follows the first `#`. -/
def fragmentText (text : List Char) : List Char := (text.dropWhile isQueryChar).drop 1

/-- The path and the query of what follows the authority. -/
def parsePathEtc (text : List Char) : Option (List Char × List Char) :=
  match decode (pathText text), decode (fragmentText text) with
  | some path, some _ => some (path, queryText text)
  | _, _ => none

/-- The scheme of a text, and what follows its colon. -/
def schemeOf (text : List Char) : Option (List Char × List Char) :=
  if text.head?.all fun c => c ∈ ['/', '.', '?', '#'] then none
  else
    match text.dropWhile fun c => c ∉ [':', '/', '?', '#'] with
    | ':' :: rest => some (text.takeWhile fun c => c ∉ [':', '/', '?', '#'], rest)
    | _ => none

/-- Of the authority only what follows the last `@` is looked at. -/
def parseHierarchical (ports : Ports) (scheme text : List Char) : Option Parts :=
  match hostAndPort ports scheme ((text.takeWhile isAuthorityChar).rtakeWhile (· ≠ '@')),
    parsePathEtc (text.dropWhile isAuthorityChar) with
  | some (host, port), some (path, query) => some ⟨scheme, host, port, path, query⟩
  | _, _ => none

/-- The parts of a URI: with an authority, without one, or without a scheme. -/
def parse (ports : Ports) (text : List Char) : Option Parts :=
  match schemeOf text with
  | none => (parsePathEtc text).map fun p => ⟨[], [], 0, p.1, p.2⟩
  | some (scheme, rest) =>
    let scheme := scheme.map Char.toLower
    match rest with
    | [] => none
    | '/' :: '/' :: rest => parseHierarchical ports scheme rest
    | _ => (parsePathEtc rest).map fun p => ⟨scheme, [], ports.wellKnown scheme, p.1, p.2⟩

/-- What follows a delimiter does not count. -/
theorem takeWhile_append_of_stops {p : Char → Bool} (h : ∀ c ∈ ys.head?, p c = false) :
    (xs ++ ys).takeWhile p = xs.takeWhile p := by
  induction xs with
  | nil =>
    cases ys with
    | nil => rfl
    | cons c ys => simp [h c rfl]
  | cons c xs ih =>
    by_cases hc : p c = true
    · simp [hc, ih]
    · simp [hc]

/-- The delimiter is where the rest begins. -/
theorem dropWhile_append_of_stops {p : Char → Bool} (h : ∀ c ∈ ys.head?, p c = false)
    (hall : ∀ c ∈ xs, p c = true) : (xs ++ ys).dropWhile p = ys := by
  rw [List.dropWhile_append_of_pos hall]
  cases ys with
  | nil => rfl
  | cons c ys => simp [h c rfl]

/-- From behind, all of the last part is taken. -/
theorem rtakeWhile_append_of_all {p : Char → Bool} (h : ∀ c ∈ ys, p c = true) :
    (xs ++ ys).rtakeWhile p = xs.rtakeWhile p ++ ys := by
  unfold List.rtakeWhile
  rw [List.reverse_append, List.takeWhile_append_of_pos (by simpa using h), List.reverse_append,
    List.reverse_reverse]

/-- What stands in front of a separator does not count. -/
theorem rtakeWhile_append_cons {p : Char → Bool} (h : p c = false) :
    (xs ++ c :: ys).rtakeWhile p = ys.rtakeWhile p := by
  unfold List.rtakeWhile
  rw [List.reverse_append, List.reverse_cons, List.append_assoc, takeWhile_append_of_stops]
  intro d hd
  cases hd
  exact h

/-! ### Hosts -/

/-- A host as it is written: a name without a colon, or an address in brackets. -/
def IsHost (host : List Char) : Prop :=
  (host.head? ≠ some '[' ∧ ':' ∉ host) ∨ ∃ address, host = '[' :: (address ++ [']']) ∧ ']' ∉ address

/-- What follows a host. -/
def IsPortText (text : List Char) : Prop := text = [] ∨ ∃ number, text = ':' :: number

/-- A host is found in front of a port. -/
theorem hostOf_append {host rest : List Char} (hhost : IsHost host) (hrest : IsPortText rest) :
    hostOf (host ++ rest) = some (host, rest) := by
  -- the port begins with a colon
  have hstops : ∀ c ∈ rest.head?, (decide (c ≠ ':')) = false := by
    intro c hc
    rcases hrest with rfl | ⟨number, rfl⟩
    · cases hc
    · cases hc
      rfl
  rcases hhost with ⟨hhead, hcolon⟩ | ⟨address, rfl, hclose⟩
  -- a name, or an address in brackets
  · have hhead' : (host ++ rest).head? ≠ some '[' := by
      cases host with
      | nil =>
        rcases hrest with rfl | ⟨number, rfl⟩
        · simp
        · simp
      | cons c host => simpa using hhead
    have hall : ∀ c ∈ host, decide (c ≠ ':') = true := by
      intro c hc
      simp only [decide_eq_true_eq]
      exact fun heq => hcolon (heq ▸ hc)
    unfold hostOf
    rw [if_neg hhead', takeWhile_append_of_stops hstops, dropWhile_append_of_stops hstops hall,
      List.takeWhile_eq_self_iff.mpr hall]
  · have hall : ∀ c ∈ '[' :: address, decide (c ≠ ']') = true := by
      intro c hc
      simp only [decide_eq_true_eq]
      intro heq
      rcases List.mem_cons.mp hc with rfl | hc
      · exact absurd heq (by decide)
      · exact hclose (heq ▸ hc)
    have hsplit : '[' :: (address ++ [']']) ++ rest = ('[' :: address) ++ ']' :: rest := by simp
    have hstops' : ∀ c ∈ (']' :: rest).head?, decide (c ≠ ']') = false := by
      intro c hc
      cases hc
      rfl
    unfold hostOf
    rw [hsplit, if_pos (by rfl), dropWhile_append_of_stops hstops' hall,
      takeWhile_append_of_stops hstops', List.takeWhile_eq_self_iff.mpr hall]
    simp

/-- A host is no longer than the text in which it is found. -/
theorem length_of_hostOf {part host rest : List Char} (h : hostOf part = some (host, rest)) :
    host.length ≤ part.length := by
  unfold hostOf at h
  split at h
  · split at h
    · cases h
    · rename_i close rest' hdrop
      cases h
      have hsplit := congrArg List.length
        (List.takeWhile_append_dropWhile (p := fun c => decide (c ≠ ']')) (l := part))
      rw [hdrop] at hsplit
      simp only [List.length_append, List.length_cons, List.length_nil] at hsplit ⊢
      omega
  · cases h
    exact (List.takeWhile_sublist _).length_le

/-- The host of a text ends before its port. -/
theorem length_of_hostOf_append {front number host rest : List Char}
    (hnumber : ']' ∉ number) (h : hostOf (front ++ ':' :: number) = some (host, rest)) :
    host.length ≤ front.length := by
  unfold hostOf at h
  split at h
  · split at h
    · cases h
    · rename_i close rest' hdrop
      cases h
      -- a bracket in front would have to be closed in front
      by_cases hall : ∀ c ∈ front, decide (c ≠ ']') = true
      · -- no bracket would close
        have hevery : ∀ c ∈ front ++ ':' :: number, decide (c ≠ ']') = true := by
          intro c hc
          rw [List.mem_append, List.mem_cons] at hc
          rcases hc with hc | rfl | hc
          · exact hall c hc
          · decide
          · simp only [decide_eq_true_eq]
            exact fun heq => hnumber (heq ▸ hc)
        rw [List.dropWhile_eq_nil_iff.mpr hevery] at hdrop
        cases hdrop
      · have hne : (front.takeWhile fun c => decide (c ≠ ']')) ≠ front := by
          intro heq
          exact hall (List.takeWhile_eq_self_iff.mp heq)
        have hfront := List.takeWhile_prefix (l := front) fun c => decide (c ≠ ']')
        have hlt : (front.takeWhile fun c => decide (c ≠ ']')).length < front.length := by
          have hle := hfront.length_le
          have hnot : ¬front.length ≤ (front.takeWhile fun c => decide (c ≠ ']')).length :=
            fun hge => hne (hfront.eq_of_length_le hge)
          omega
        rw [List.takeWhile_append, if_neg (by omega), List.length_append]
        simp only [List.length_cons, List.length_nil]
        omega
  · cases h
    -- without a bracket the host ends at the first colon
    have hstops : ∀ c ∈ (':' :: number).head?, decide (c ≠ ':') = false := by
      intro c hc
      cases hc
      rfl
    rw [takeWhile_append_of_stops hstops]
    exact (List.takeWhile_sublist _).length_le

/-! ## Absolute URIs -/

/-- An optional part with the separator that ends it. -/
def before (separator : Char) : Option (List Char) → List Char
  | some text => text ++ [separator]
  | none => []

/-- An optional part with the separator that begins it. -/
def behind (separator : Char) : Option (List Char) → List Char
  | some text => separator :: text
  | none => []

/-- The parts of an absolute URI with an authority, as they are written. -/
structure AbsoluteUri (ports : Ports) where
  scheme : List Char
  userInfo : Option (List Char)
  host : List Char
  port : Option (List Char)
  path : List Char
  query : Option (List Char)
  fragment : Option (List Char)
  scheme_head : ∃ c, scheme.head? = some c ∧ c ≠ '.'
  scheme_chars : ∀ c ∈ scheme, c ∉ [':', '/', '?', '#', '%']
  userInfo_chars : ∀ text ∈ userInfo, ∀ c ∈ text, isAuthorityChar c = true
  isHost : IsHost host
  host_chars : ∀ c ∈ host, isAuthorityChar c = true ∧ c ≠ '@'
  port_chars : ∀ text ∈ port, ∀ c ∈ text, c.isDigit = true
  port_valid : (portOf ports (scheme.map Char.toLower) (behind ':' port)).isSome
  path_head : ∀ c ∈ path.head?, c = '/'
  path_chars : ∀ c ∈ path, isPathChar c = true
  query_chars : ∀ text ∈ query, ∀ c ∈ text, isQueryChar c = true
  userInfo_escapes : ∀ text ∈ userInfo, (decode text).isSome
  host_escapes : (decode host).isSome
  path_escapes : (decode path).isSome
  query_escapes : ∀ text ∈ query, (decode text).isSome
  fragment_escapes : ∀ text ∈ fragment, (decode text).isSome

/-- The separator stays when the part before it is decoded. -/
theorem decode_before {separator : Char} (hseparator : separator ≠ '%') {o : Option (List Char)}
    (h : ∀ text ∈ o, (decode text).isSome) :
    decode (before separator o) = some (before separator (o.map decoded)) := by
  cases o with
  | none => rfl
  | some text =>
    unfold before
    rw [decode_append (decode_eq_decoded (h text rfl)), decode_cons hseparator]
    rfl

/-- The separator stays when the part behind it is decoded. -/
theorem decode_behind {separator : Char} (hseparator : separator ≠ '%') {o : Option (List Char)}
    (h : ∀ text ∈ o, (decode text).isSome) :
    decode (behind separator o) = some (behind separator (o.map decoded)) := by
  cases o with
  | none => rfl
  | some text =>
    unfold behind
    rw [decode_cons hseparator, decode_eq_decoded (h text rfl)]
    rfl

theorem head?_behind {separator c : Char} {o : Option (List Char)}
    (h : c ∈ (behind separator o).head?) : c = separator := by
  cases o with
  | none => cases h
  | some text =>
    cases h
    rfl

/-! ### The rest of a text, behind the authority -/

section
variable {path : List Char} {query fragment : Option (List Char)}

/-- A path with a query and a fragment. -/
def tailText (path : List Char) (query fragment : Option (List Char)) : List Char :=
  path ++ (behind '?' query ++ behind '#' fragment)

/-- The path ends where it is written to end, or at a delimiter in it. -/
theorem pathText_tailText :
    pathText (tailText path query fragment) = path.takeWhile isPathChar := by
  apply takeWhile_append_of_stops
  intro c hc
  cases query with
  | none =>
    rw [head?_behind hc]
    rfl
  | some text =>
    cases hc
    rfl

/-- Behind a path without delimiters comes the query. -/
theorem dropWhile_tailText (hpath : ∀ c ∈ path, isPathChar c = true) :
    (tailText path query fragment).dropWhile isPathChar =
      behind '?' query ++ behind '#' fragment := by
  refine dropWhile_append_of_stops (fun c hc => ?_) hpath
  cases query with
  | none =>
    rw [head?_behind hc]
    rfl
  | some text =>
    cases hc
    rfl

/-- The query of a path without delimiters. -/
theorem queryText_tailText (hpath : ∀ c ∈ path, isPathChar c = true) :
    queryText (tailText path query fragment) = (query.getD []).takeWhile isQueryChar := by
  unfold queryText
  rw [dropWhile_tailText hpath]
  cases query with
  | none =>
    cases fragment with
    | none => rfl
    | some text => rfl
  | some text =>
    show (text ++ behind '#' fragment).takeWhile isQueryChar = text.takeWhile isQueryChar
    apply takeWhile_append_of_stops
    intro c hc
    rw [head?_behind hc]
    rfl

/-- The fragment, where neither path nor query has its delimiter. -/
theorem fragmentText_tailText (hpath : ∀ c ∈ path, isPathChar c = true)
    (hquery : ∀ text ∈ query, ∀ c ∈ text, isQueryChar c = true) :
    fragmentText (tailText path query fragment) = fragment.getD [] := by
  -- in front of the fragment there is no `#`
  have hfront : ∀ c ∈ path ++ behind '?' query, isQueryChar c = true := by
    intro c hc
    rcases List.mem_append.mp hc with hc | hc
    · have h := hpath c hc
      unfold isPathChar at h
      unfold isQueryChar
      simp only [Bool.and_eq_true] at h
      exact h.2
    · cases query with
      | none => cases hc
      | some text =>
        rcases List.mem_cons.mp hc with rfl | hc
        · rfl
        · exact hquery text rfl c hc
  unfold fragmentText tailText
  rw [← List.append_assoc, dropWhile_append_of_stops (fun c hc => by
    rw [head?_behind hc]
    rfl) hfront]
  cases fragment with
  | none => rfl
  | some text => rfl

end

/-- A text with a scheme and an authority. -/
theorem parse_hierarchical (ports : Ports) {scheme rest : List Char}
    (hhead : ∃ c, scheme.head? = some c ∧ c ≠ '.')
    (hchars : ∀ c ∈ scheme, c ∉ [':', '/', '?', '#', '%']) :
    parse ports (scheme ++ ':' :: '/' :: '/' :: rest) =
      parseHierarchical ports (scheme.map Char.toLower) rest := by
  obtain ⟨c, hc, hdot⟩ := hhead
  obtain ⟨cs, rfl⟩ : ∃ cs, scheme = c :: cs := by
    cases scheme with
    | nil => cases hc
    | cons d cs =>
      cases hc
      exact ⟨cs, rfl⟩
  -- the scheme ends at its colon
  have hall : ∀ d ∈ c :: cs, decide (d ∉ [':', '/', '?', '#']) = true := by
    intro d hd
    have h := hchars d hd
    simp only [List.mem_cons, not_or, decide_eq_true_eq] at h ⊢
    tauto
  have hstops : ∀ d ∈ (':' :: '/' :: '/' :: rest).head?,
      decide (d ∉ [':', '/', '?', '#']) = false := by
    intro d hd
    cases hd
    decide
  have hnot : ¬(((c :: cs) ++ ':' :: '/' :: '/' :: rest).head?.all
      fun d => d ∈ ['/', '.', '?', '#']) = true := by
    have h := hchars c List.mem_cons_self
    simp only [List.mem_cons, not_or] at h
    simp [hdot, h]
  unfold parse schemeOf
  rw [if_neg hnot, dropWhile_append_of_stops hstops hall, takeWhile_append_of_stops hstops,
    List.takeWhile_eq_self_iff.mpr hall]
  rfl

/-- The same host, port, decoded path and query as it is written. -/
structure SameTarget (p q : Parts) : Prop where
  host_eq : p.host = q.host
  port_eq : p.port = q.port
  path_eq : p.path = q.path
  query_eq : p.query = q.query

namespace AbsoluteUri

variable {ports : Ports}

/-- The authority of a URI; `userInfo` and `host` may be decoded. -/
def authority (u : AbsoluteUri ports) (userInfo : Option (List Char)) (host : List Char) :
    List Char :=
  before '@' userInfo ++ (host ++ behind ':' u.port)

/-- The URI as it is written. -/
def text (u : AbsoluteUri ports) : List Char :=
  u.scheme ++ ':' :: '/' :: '/' ::
    (u.authority u.userInfo u.host ++ tailText u.path u.query u.fragment)

/-- What the text stands for. -/
def decodedText (u : AbsoluteUri ports) : List Char :=
  u.scheme ++ ':' :: '/' :: '/' :: (u.authority (u.userInfo.map decoded) (decoded u.host) ++
    tailText (decoded u.path) (u.query.map decoded) (u.fragment.map decoded))

/-- What the parser makes of the text. -/
def parts (u : AbsoluteUri ports) : Parts where
  scheme := u.scheme.map Char.toLower
  host := u.host.map Char.toLower
  port := (portOf ports (u.scheme.map Char.toLower) (behind ':' u.port)).get u.port_valid
  path := decoded u.path
  query := u.query.getD []

/-- Decoding a URI decodes its parts. -/
theorem decode_text (u : AbsoluteUri ports) : decode u.text = some u.decodedText := by
  -- only user, host, path, query and fragment can have escapes
  have hscheme : '%' ∉ u.scheme := fun hmem => absurd (u.scheme_chars _ hmem) (by decide)
  have hport : '%' ∉ behind ':' u.port := by
    intro hmem
    cases hport : u.port with
    | none =>
      rw [hport] at hmem
      cases hmem
    | some number =>
      rw [hport] at hmem
      rcases List.mem_cons.mp hmem with h | h
      · exact absurd h (by decide)
      · exact absurd (u.port_chars number hport _ h) (by decide)
  have hauthority : decode (u.authority u.userInfo u.host) =
      some (u.authority (u.userInfo.map decoded) (decoded u.host)) := by
    unfold authority
    rw [decode_append (decode_before (by decide) u.userInfo_escapes),
      decode_append (decode_eq_decoded u.host_escapes), decode_of_not_mem hport]
    rfl
  have htail : decode (tailText u.path u.query u.fragment) = some (tailText (decoded u.path)
      (u.query.map decoded) (u.fragment.map decoded)) := by
    unfold tailText
    rw [decode_append (decode_eq_decoded u.path_escapes),
      decode_append (decode_behind (by decide) u.query_escapes),
      decode_behind (by decide) u.fragment_escapes]
    rfl
  unfold text decodedText
  rw [decode_append (decode_of_not_mem hscheme), decode_cons (by decide), decode_cons (by decide),
    decode_cons (by decide), decode_append hauthority, htail]
  rfl

/-- What follows the host is a port or nothing. -/
theorem isPortText_port (u : AbsoluteUri ports) : IsPortText (behind ':' u.port) := by
  cases u.port with
  | none => exact .inl rfl
  | some number => exact .inr ⟨number, rfl⟩

/-- A separator that is no digit is not in a port. -/
theorem port_ne (u : AbsoluteUri ports) {separator : Char} (hdigit : separator.isDigit = false)
    (hcolon : separator ≠ ':') : separator ∉ behind ':' u.port := by
  intro hmem
  cases hport : u.port with
  | none =>
    rw [hport] at hmem
    cases hmem
  | some number =>
    rw [hport] at hmem
    have hin := (List.mem_cons.mp hmem).resolve_left hcolon
    rw [u.port_chars number hport _ hin] at hdigit
    cases hdigit

theorem isAuthorityChar_port (u : AbsoluteUri ports) :
    ∀ c ∈ behind ':' u.port, isAuthorityChar c = true := by
  intro c hc
  have hslash : c ≠ '/' := fun h => u.port_ne (by decide) (by decide) (h ▸ hc)
  have hquestion : c ≠ '?' := fun h => u.port_ne (by decide) (by decide) (h ▸ hc)
  have hhash : c ≠ '#' := fun h => u.port_ne (by decide) (by decide) (h ▸ hc)
  simp [isAuthorityChar, hslash, hquestion, hhash]

/-- What follows the user information. -/
theorem rtakeWhile_before {userInfo : Option (List Char)} (rest : List Char) :
    (before '@' userInfo ++ rest).rtakeWhile (· ≠ '@') = rest.rtakeWhile (· ≠ '@') := by
  cases userInfo with
  | none => rfl
  | some text =>
    show (text ++ ['@'] ++ rest).rtakeWhile _ = _
    rw [List.append_assoc]
    exact rtakeWhile_append_cons (by decide)

theorem isAuthorityChar_before {userInfo : Option (List Char)}
    (h : ∀ text ∈ userInfo, ∀ c ∈ text, isAuthorityChar c = true) :
    ∀ c ∈ before '@' userInfo, isAuthorityChar c = true := by
  intro c hc
  cases userInfo with
  | none => cases hc
  | some text =>
    rcases List.mem_append.mp hc with hc | hc
    · exact h text rfl c hc
    · rw [List.mem_singleton.mp hc]
      rfl

/-- A path that begins with a slash ends the authority. -/
theorem head?_tailText {path : List Char}
    (hpath : ∀ c ∈ path.head?, c = '/') {query fragment : Option (List Char)} :
    ∀ c ∈ (tailText path query fragment).head?, isAuthorityChar c = false := by
  intro c hc
  cases path with
  | cons d path =>
    cases hc
    rw [hpath c rfl]
    rfl
  | nil =>
    cases query with
    | none =>
      rw [head?_behind hc]
      rfl
    | some text =>
      cases hc
      rfl

/-- The first slash of a path is none that was escaped. -/
theorem head?_decoded_path (u : AbsoluteUri ports) : ∀ c ∈ (decoded u.path).head?, c = '/' := by
  intro c hc
  have hhead := u.path_head
  unfold decoded at hc
  cases hpath : u.path with
  | nil =>
    rw [hpath] at hc
    cases hc
  | cons d path =>
    rw [hpath] at hhead hc
    have hd : d = '/' := hhead d rfl
    rw [hd, decode_cons (by decide)] at hc
    cases hdecode : decode path with
    | none =>
      rw [hdecode] at hc
      cases hc
    | some rest =>
      rw [hdecode] at hc
      cases hc
      rfl

/-- An authority whose user information has no delimiter and whose host has no escape. -/
theorem hostAndPort_authority (u : AbsoluteUri ports) {userInfo : Option (List Char)}
    (huser : ∀ text ∈ userInfo, ∀ c ∈ text, isAuthorityChar c = true) {rest : List Char}
    (hrest : ∀ c ∈ rest.head?, isAuthorityChar c = false) :
    (u.authority userInfo u.host ++ rest).dropWhile isAuthorityChar = rest ∧
      hostAndPort ports (u.scheme.map Char.toLower)
        (((u.authority userInfo u.host ++ rest).takeWhile isAuthorityChar).rtakeWhile (· ≠ '@')) =
          some (u.parts.host, u.parts.port) := by
  have hall : ∀ c ∈ u.authority userInfo u.host, isAuthorityChar c = true := by
    intro c hc
    rcases List.mem_append.mp hc with hc | hc
    · exact isAuthorityChar_before huser c hc
    rcases List.mem_append.mp hc with hc | hc
    · exact (u.host_chars c hc).1
    · exact u.isAuthorityChar_port c hc
  refine ⟨dropWhile_append_of_stops hrest hall, ?_⟩
  rw [takeWhile_append_of_stops hrest, List.takeWhile_eq_self_iff.mpr hall]
  unfold authority
  rw [rtakeWhile_before]
  -- the user ends at the last `@`
  have hnone : ∀ c ∈ u.host ++ behind ':' u.port, decide (c ≠ '@') = true := by
    intro c hc
    simp only [decide_eq_true_eq]
    rcases List.mem_append.mp hc with hc | hc
    · exact (u.host_chars c hc).2
    · exact fun h => u.port_ne (by decide) (by decide) (h ▸ hc)
  have hwhole : (u.host ++ behind ':' u.port).rtakeWhile (· ≠ '@') =
      u.host ++ behind ':' u.port := by
    have h : ([] ++ (u.host ++ behind ':' u.port)).rtakeWhile (· ≠ '@') =
        [].rtakeWhile (· ≠ '@') ++ (u.host ++ behind ':' u.port) := rtakeWhile_append_of_all hnone
    simpa using h
  rw [hwhole]
  unfold hostAndPort
  rw [hostOf_append u.isHost u.isPortText_port]
  dsimp only
  rw [← Option.some_get u.port_valid]
  rfl

theorem takeWhile_query (u : AbsoluteUri ports) :
    (u.query.getD []).takeWhile isQueryChar = u.query.getD [] := by
  cases hsome : u.query with
  | none => rfl
  | some text => exact List.takeWhile_eq_self_iff.mpr (u.query_chars text hsome)

/-- Parsing undoes writing. -/
theorem parse_text (u : AbsoluteUri ports) : parse ports u.text = some u.parts := by
  have hstops : ∀ c ∈ (tailText u.path u.query u.fragment).head?, isAuthorityChar c = false :=
    head?_tailText u.path_head
  obtain ⟨hrest, hhost⟩ := u.hostAndPort_authority u.userInfo_chars hstops
  have hfragment : (decode (u.fragment.getD [])).isSome := by
    cases hsome : u.fragment with
    | none => rfl
    | some text => exact u.fragment_escapes text hsome
  unfold text
  rw [parse_hierarchical ports u.scheme_head u.scheme_chars]
  unfold parseHierarchical parsePathEtc
  rw [hrest, hhost, pathText_tailText, List.takeWhile_eq_self_iff.mpr u.path_chars,
    fragmentText_tailText u.path_chars u.query_chars, queryText_tailText u.path_chars,
    u.takeWhile_query, decode_eq_decoded u.path_escapes, decode_eq_decoded hfragment]
  rfl

/-! ### Decoding before parsing -/

/-- No escape in the user information stands for a character that ends the authority. -/
def UserInfoSurvives (u : AbsoluteUri ports) : Prop :=
  ∀ text ∈ u.userInfo, ∀ c ∈ decoded text, isAuthorityChar c = true

/-- The host and the query have no escape, no escape in the path stands for a percent sign or for a
character that ends the path, and what the fragment stands for is well-formed itself. -/
structure Survives (u : AbsoluteUri ports) : Prop where
  userInfo : u.UserInfoSurvives
  host : '%' ∉ u.host
  path : (∀ c ∈ decoded u.path, isPathChar c = true) ∧ '%' ∉ decoded u.path
  query : ∀ text ∈ u.query, '%' ∉ text
  fragment : ∀ text ∈ u.fragment, (decode (decoded text)).isSome

/-- Without a percent sign a text stands for itself. -/
theorem decoded_of_not_mem (h : '%' ∉ xs) : decoded xs = xs := by
  unfold decoded
  rw [decode_of_not_mem h]
  rfl

/-- A URI without escapes survives. -/
theorem survives_of_not_mem (u : AbsoluteUri ports) (h : '%' ∉ u.text) : u.Survives := by
  unfold text authority tailText at h
  simp only [List.mem_append, List.mem_cons, not_or] at h
  obtain ⟨-, -, -, -, ⟨huser, hhost, -⟩, hpath, hquery, hfragment⟩ := h
  refine ⟨fun text htext => ?_, hhost, ?_, fun text htext => ?_, fun text htext => ?_⟩
  · rw [htext, before, List.mem_append, not_or] at huser
    rw [decoded_of_not_mem huser.1]
    exact u.userInfo_chars text htext
  · rw [decoded_of_not_mem hpath]
    exact ⟨u.path_chars, hpath⟩
  · rw [htext, behind, List.mem_cons, not_or] at hquery
    exact hquery.2
  · rw [htext, behind, List.mem_cons, not_or] at hfragment
    rw [decoded_of_not_mem hfragment.2, decode_of_not_mem hfragment.2]
    rfl

/-- A query without escapes is left as it was. -/
theorem map_decoded_query (u : AbsoluteUri ports) (h : ∀ text ∈ u.query, '%' ∉ text) :
    u.query.map decoded = u.query := by
  cases hquery : u.query with
  | none => rfl
  | some text => exact congrArg some (decoded_of_not_mem (h text hquery))

theorem forall_mem_map_decoded {o : Option (List Char)} {p : Char → Bool}
    (h : ∀ text ∈ o, ∀ c ∈ decoded text, p c = true) :
    ∀ text ∈ o.map decoded, ∀ c ∈ text, p c = true := by
  intro text htext
  obtain ⟨original, horiginal, rfl⟩ := Option.mem_map.mp htext
  exact h original horiginal

/-- A host that is found in a decoded authority is no longer than the decoded host. -/
theorem length_host_decoded (u : AbsoluteUri ports) (huser : u.UserInfoSurvives)
    {rest host behindHost : List Char} (hrest : ∀ c ∈ rest.head?, isAuthorityChar c = false)
    (h : hostOf (((u.authority (u.userInfo.map decoded) (decoded u.host) ++ rest).takeWhile
      isAuthorityChar).rtakeWhile (· ≠ '@')) = some (host, behindHost)) :
    host.length ≤ (decoded u.host).length := by
  have hbefore := isAuthorityChar_before (forall_mem_map_decoded huser)
  have hsuffix : ∀ text : List Char, (text.rtakeWhile (· ≠ '@')).length ≤ text.length := by
    intro text
    unfold List.rtakeWhile
    rw [List.length_reverse]
    have hle := (List.takeWhile_sublist (l := text.reverse) (· ≠ '@')).length_le
    rw [List.length_reverse] at hle
    exact hle
  unfold authority at h
  rw [takeWhile_append_of_stops hrest, List.takeWhile_append_of_pos hbefore, rtakeWhile_before] at h
  by_cases hall : ∀ c ∈ decoded u.host, isAuthorityChar c = true
  · -- the port stands behind the host
    rw [List.takeWhile_append_of_pos hall,
      List.takeWhile_eq_self_iff.mpr u.isAuthorityChar_port] at h
    have hnone : ∀ c ∈ behind ':' u.port, decide (c ≠ '@') = true := by
      intro c hc
      simp only [decide_eq_true_eq]
      exact fun heq => u.port_ne (by decide) (by decide) (heq ▸ hc)
    rw [rtakeWhile_append_of_all hnone] at h
    -- what is behind an `@` is shorter than the whole
    have hfront := hsuffix (decoded u.host)
    cases hport : u.port with
    | none =>
      rw [hport] at h
      have hle := length_of_hostOf h
      simp only [behind, List.append_nil] at hle
      omega
    | some number =>
      rw [hport] at h
      have hbracket : ']' ∉ number := by
        intro hmem
        have hdigit := u.port_chars number hport _ hmem
        cases hdigit
      -- the port is cut off first
      have hle := length_of_hostOf_append hbracket h
      omega
  -- a decoded character ends the authority early
  · have hcut : ((decoded u.host ++ behind ':' u.port).takeWhile isAuthorityChar) =
        (decoded u.host).takeWhile isAuthorityChar := by
      rw [List.takeWhile_append, if_neg]
      intro hlen
      have hfront := List.takeWhile_prefix (l := decoded u.host) isAuthorityChar
      exact hall (List.takeWhile_eq_self_iff.mp (hfront.eq_of_length hlen))
    rw [hcut] at h
    have hle := length_of_hostOf h
    have hle' := hsuffix ((decoded u.host).takeWhile isAuthorityChar)
    have hle'' := (List.takeWhile_sublist (l := decoded u.host) isAuthorityChar).length_le
    omega

/-- The host of the decoded text is that of the text only if it has no escape. -/
theorem host_of_sameHost (u : AbsoluteUri ports) (huser : u.UserInfoSurvives) {target : Parts}
    (h : parse ports u.decodedText = some target) (hhost : target.host = u.parts.host) :
    '%' ∉ u.host := by
  intro hmem
  have hstops : ∀ c ∈ (tailText (decoded u.path) (u.query.map decoded)
      (u.fragment.map decoded)).head?, isAuthorityChar c = false :=
    head?_tailText u.head?_decoded_path
  unfold decodedText at h
  rw [parse_hierarchical ports u.scheme_head u.scheme_chars] at h
  unfold parseHierarchical hostAndPort at h
  cases hfound : hostOf (((u.authority (u.userInfo.map decoded) (decoded u.host) ++
      tailText (decoded u.path) (u.query.map decoded) (u.fragment.map decoded)).takeWhile
        isAuthorityChar).rtakeWhile (· ≠ '@')) with
  | none =>
    rw [hfound] at h
    cases h
  | some found =>
    obtain ⟨host, behindHost⟩ := found
    -- an escape in the host makes the host shorter when it is decoded
    have hle := u.length_host_decoded huser hstops hfound
    have hlt := length_decode_lt (decode_eq_decoded u.host_escapes) hmem
    rw [hfound] at h
    dsimp only at h
    cases hport : portOf ports (u.scheme.map Char.toLower) behindHost with
    | none =>
      rw [hport] at h
      cases h
    | some port =>
      rw [hport] at h
      cases hpath : parsePathEtc ((u.authority (u.userInfo.map decoded) (decoded u.host) ++
          tailText (decoded u.path) (u.query.map decoded) (u.fragment.map decoded)).dropWhile
            isAuthorityChar) with
      | none =>
        rw [hpath] at h
        cases h
      | some path =>
        rw [hpath] at h
        cases h
        have hlen := congrArg List.length hhost
        simp only [parts, List.length_map] at hlen
        omega

/-- Decoding leaves the scheme alone. -/
theorem scheme_of_parse_decodedText (u : AbsoluteUri ports) {target : Parts}
    (h : parse ports u.decodedText = some target) : target.scheme = u.parts.scheme := by
  unfold decodedText at h
  rw [parse_hierarchical ports u.scheme_head u.scheme_chars] at h
  unfold parseHierarchical at h
  split at h
  · cases h
    rfl
  · cases h

/-- With the authority as it was, the rest of the decoded text decides. -/
theorem parse_decodedText (u : AbsoluteUri ports) (huser : u.UserInfoSurvives)
    (hhost : '%' ∉ u.host) :
    parse ports u.decodedText = (parsePathEtc (tailText (decoded u.path) (u.query.map decoded)
      (u.fragment.map decoded))).map fun p => { u.parts with path := p.1, query := p.2 } := by
  have hstops : ∀ c ∈ (tailText (decoded u.path) (u.query.map decoded)
      (u.fragment.map decoded)).head?, isAuthorityChar c = false :=
    head?_tailText u.head?_decoded_path
  obtain ⟨hrest, hfound⟩ := u.hostAndPort_authority (forall_mem_map_decoded huser) hstops
  unfold decodedText
  rw [parse_hierarchical ports u.scheme_head u.scheme_chars, decoded_of_not_mem hhost]
  unfold parseHierarchical
  rw [hrest, hfound]
  cases parsePathEtc (tailText (decoded u.path) (u.query.map decoded) (u.fragment.map decoded)) with
  | none => rfl
  | some p => rfl

/-- A URI whose decoded text has the same target survives: nothing of its parts was cut off or
decoded twice. -/
theorem survives_of_sameTarget (u : AbsoluteUri ports) (huser : u.UserInfoSurvives) {target : Parts}
    (hparse : parse ports u.decodedText = some target) (hsame : SameTarget target u.parts) :
    u.Survives := by
  have hhost := u.host_of_sameHost huser hparse hsame.host_eq
  rw [u.parse_decodedText huser hhost] at hparse
  unfold parsePathEtc at hparse
  rw [pathText_tailText] at hparse
  cases hpath : decode ((decoded u.path).takeWhile isPathChar) with
  | none =>
    rw [hpath] at hparse
    cases hparse
  | some path =>
    rw [hpath] at hparse
    cases hfragment : decode (fragmentText (tailText (decoded u.path) (u.query.map decoded)
        (u.fragment.map decoded))) with
    | none =>
      rw [hfragment] at hparse
      cases hparse
    | some fragment =>
      rw [hfragment] at hparse
      cases hparse
      have hsurvives : (∀ c ∈ decoded u.path, isPathChar c = true) ∧ '%' ∉ decoded u.path := by
        rw [← decode_takeWhile_eq_iff, hpath]
        exact congrArg some hsame.path_eq
      have hquery : ∀ text ∈ u.query, '%' ∉ text := by
        intro text htext
        have hkept := hsame.query_eq
        simp only [parts, queryText_tailText hsurvives.1] at hkept
        rw [htext] at hkept
        exact not_mem_of_takeWhile_decoded (u.query_escapes text htext) hkept
      refine ⟨huser, hhost, hsurvives, hquery, fun text htext => ?_⟩
      rw [u.map_decoded_query hquery, fragmentText_tailText hsurvives.1 u.query_chars,
        htext] at hfragment
      exact Option.isSome_of_eq_some hfragment

/-- Nothing of the decoded parts ends a part early, so the text of a URI that survives parses
into them. -/
theorem exists_sameTarget (u : AbsoluteUri ports) (h : u.Survives) :
    ∃ target, parse ports u.decodedText = some target ∧ SameTarget target u.parts := by
  have hpath : decode ((decoded u.path).takeWhile isPathChar) = some (decoded u.path) :=
    decode_takeWhile_eq_iff.mpr h.path
  have hfragment : (decode ((u.fragment.map decoded).getD [])).isSome := by
    cases hsome : u.fragment with
    | none => rfl
    | some text => exact h.fragment text hsome
  rw [u.parse_decodedText h.userInfo h.host, u.map_decoded_query h.query]
  unfold parsePathEtc
  rw [pathText_tailText, hpath, fragmentText_tailText h.path.1 u.query_chars,
    decode_eq_decoded hfragment, queryText_tailText h.path.1, u.takeWhile_query]
  exact ⟨_, rfl, rfl, rfl, rfl, rfl⟩

/-- **Decoding before parsing.** The decoded text has the same target if and only if the URI
survives; an escape in the user information is a matter of its own. -/
theorem sameTarget_decoded_iff (u : AbsoluteUri ports) (huser : u.UserInfoSurvives) :
    (∃ target, parse ports u.decodedText = some target ∧ SameTarget target u.parts) ↔
      u.Survives :=
  ⟨fun ⟨_, hparse, hsame⟩ => u.survives_of_sameTarget huser hparse hsame, u.exists_sameTarget⟩

end AbsoluteUri

end UriText
