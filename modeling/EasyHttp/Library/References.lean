import Mathlib.Data.List.Basic

/-!
# Text with references

A text over any symbols may refer to other texts: `mark opening name closing` stands for the text
of a name. Names are read up to the next `closing`. A reference that is still open when the text
ends is either no reference, or is read as if it were closed (`closesAtEnd`).

* `scan` cuts a text into plain symbols and references;
* `Expands raw`: what comes of a text when each reference to a name of `raw` is replaced by what
  comes of its text, and all others are left;
* `Expands.unique`, `Expands.not_circular`: there is one result, and no text that refers to itself
  has one;
* `expand`: this result, where references are followed to a bounded depth;
* `rank_next_le`: a scan that has begun later is never deeper in a reference;
* `unchanged_iff`: all the texts of `raw` come out as they are if and only if none of them refers
  to another.
-/

namespace References

variable {α : Type*} [DecidableEq α]

/-- What begins a reference, opens its name and closes it; and whether the end of the text closes a
name as well. -/
structure Delimiters (α : Type*) where
  mark : α
  opening : α
  closing : α
  opening_ne_mark : opening ≠ mark
  closing_ne_mark : closing ≠ mark
  closing_ne_opening : closing ≠ opening
  closesAtEnd : Bool

/-- What a scan reports; `closed` says that the reference ends before the text does. -/
inductive Piece (α : Type*) where
  | text (c : α)
  | reference (name : List α) (closed : Bool)
deriving DecidableEq

/-- Where a scan is: in plain text, behind a `mark`, or in a name of which it has read `acc`. -/
inductive State (α : Type*) where
  | plain
  | marked
  | inName (acc : List α)

namespace State

variable (d : Delimiters α)

/-- One character further; a name takes everything up to its end. -/
def next : State α → α → State α
  | plain, c => if c = d.mark then marked else plain
  | marked, c => if c = d.opening then inName [] else if c = d.mark then marked else plain
  | inName acc, c => if c = d.closing then plain else inName (acc ++ [c])

/-- The state after a text. -/
def after (st : State α) (text : List α) : State α := text.foldl (next d) st

omit [DecidableEq α] in
/-- What has been read and not reported. -/
def pending : State α → List α
  | plain => []
  | marked => [d.mark]
  | inName acc => d.mark :: d.opening :: acc

/-- How deep in a reference a scan is. -/
def rank : State α → ℕ
  | plain => 0
  | marked => 1
  | inName _ => 2

end State

open State

section
variable (d : Delimiters α)

/-- The pieces of a text from a state on. -/
def scan : State α → List α → List (Piece α)
  | .plain, [] => []
  | .plain, c :: cs => if c = d.mark then scan .marked cs else .text c :: scan .plain cs
  | .marked, [] => [.text d.mark]
  | .marked, c :: cs =>
    if c = d.opening then scan (.inName []) cs
    else if c = d.mark then .text d.mark :: scan .marked cs
    else .text d.mark :: .text c :: scan .plain cs
  | .inName acc, [] =>
    if d.closesAtEnd then [.reference acc false]
    else (d.mark :: d.opening :: acc).map Piece.text
  | .inName acc, c :: cs =>
    if c = d.closing then .reference acc true :: scan .plain cs else scan (.inName (acc ++ [c])) cs

/-- The pieces of a text. -/
def pieces (text : List α) : List (Piece α) := scan d .plain text

/-- The text of a piece. -/
def Piece.render : Piece α → List α
  | .text c => [c]
  | .reference name closed =>
    d.mark :: d.opening :: (name ++ if closed then [d.closing] else [])

/-- Pieces as they are written. -/
def render (ps : List (Piece α)) : List α := ps.flatMap (Piece.render d)

/-- What comes of a text: `raw` has the texts that can be referred to. -/
inductive Expands (raw : List α → Option (List α)) : List (Piece α) → List α → Prop
  | nil : Expands raw [] []
  | text (c : α) {ps : List (Piece α)} {r : List α} :
    Expands raw ps r → Expands raw (.text c :: ps) (c :: r)
  | reference {name : List α} {closed : Bool} {text r' : List α} {ps : List (Piece α)}
      {r : List α} : raw name = some text → Expands raw (pieces d text) r' → Expands raw ps r →
      Expands raw (.reference name closed :: ps) (r' ++ r)
  | unknown {name : List α} {closed : Bool} {ps : List (Piece α)} {r : List α} :
    raw name = none → Expands raw ps r →
      Expands raw (.reference name closed :: ps)
        (d.mark :: d.opening :: (name ++ [d.closing]) ++ r)

end

/-- A piece that is left as it is. -/
def Piece.Inert (raw : List α → Option (List α)) : Piece α → Prop
  | .text _ => True
  | .reference name closed => raw name = none ∧ closed = true

instance (raw : List α → Option (List α)) : DecidablePred (Piece.Inert raw)
  | .text _ => isTrue trivial
  | .reference name closed => inferInstanceAs (Decidable (raw name = none ∧ closed = true))

variable {d : Delimiters α} {raw : List α → Option (List α)} {st st' : State α}

/-! ## Scanning -/

/-- A scan loses nothing. -/
theorem render_scan (st : State α) (text : List α) :
    render d (scan d st text) = st.pending d ++ text := by
  -- induction on the text, for every state of the scanner
  induction text generalizing st with
  | nil =>
    cases st with
    | plain => rfl
    | marked => rfl
    -- at the end a reference may still be open
    | inName acc =>
      rw [scan]
      by_cases h : d.closesAtEnd = true
      · simp [h, render, Piece.render, pending]
      · simp [h, render, Piece.render, pending, List.flatMap_map, List.flatMap_singleton']
  | cons c cs ih =>
    cases st with
    | plain =>
      rw [scan]
      by_cases h : c = d.mark
      · rw [if_pos h, ih, h]
        rfl
      · rw [if_neg h]
        show c :: render d (scan d .plain cs) = _
        rw [ih]
        rfl
    | marked =>
      rw [scan]
      by_cases h : c = d.opening
      · rw [if_pos h, ih, h]
        rfl
      · rw [if_neg h]
        by_cases hmark : c = d.mark
        · rw [if_pos hmark]
          show d.mark :: render d (scan d .marked cs) = _
          rw [ih, hmark]
          rfl
        · rw [if_neg hmark]
          show d.mark :: c :: render d (scan d .plain cs) = _
          rw [ih]
          rfl
    | inName acc =>
      rw [scan]
      by_cases h : c = d.closing
      · rw [if_pos h]
        show (d.mark :: d.opening :: (acc ++ [d.closing])) ++ render d (scan d .plain cs) = _
        rw [ih, h]
        simp [pending]
      · rw [if_neg h, ih]
        simp [pending]

/-- A text is made of its pieces. -/
theorem render_pieces (text : List α) : render d (pieces d text) = text := render_scan .plain text

/-- A text without a `mark` has no references. -/
theorem pieces_of_notMem {text : List α} (h : d.mark ∉ text) :
    pieces d text = text.map Piece.text := by
  unfold pieces
  induction text with
  | nil => rfl
  | cons c cs ih =>
    rw [List.mem_cons, not_or] at h
    rw [scan, if_neg (Ne.symm h.1), ih h.2]
    rfl

/-- A scan that is less deep in a reference stays so. -/
theorem rank_next_le (h : st.rank ≤ st'.rank) (c : α) :
    (st.next d c).rank ≤ (st'.next d c).rank := by
  have hmark := d.opening_ne_mark
  have hclosing := d.closing_ne_mark
  have hopening := d.closing_ne_opening
  cases st <;> cases st' <;> simp only [rank] at h <;> unfold next <;> grind [rank]

/-- Whoever is further in a reference stays further. -/
theorem rank_after_le (h : st.rank ≤ st'.rank) (text : List α) :
    (st.after d text).rank ≤ (st'.after d text).rank := by
  induction text generalizing st st' with
  | nil => exact h
  | cons c cs ih => exact ih (rank_next_le h c)

/-- The scan of a text is at most as deep behind its last part as the scan of this part. -/
theorem rank_after_suffix (a x : List α) :
    (after d plain x).rank ≤ (after d plain (a ++ x)).rank := by
  have hsplit : after d plain (a ++ x) = after d (after d plain a) x := List.foldl_append
  rw [hsplit]
  exact rank_after_le (Nat.zero_le _) x

/-- A reference is seen wherever the scan is not in another one. -/
theorem scan_append_reference {x : List α} (h : (st.after d x).rank < 2) (z : List α) :
    ∃ ps, scan d st (x ++ d.mark :: d.opening :: z) = ps ++ scan d (.inName []) z := by
  -- induction on what stands in front of the reference
  induction x generalizing st with
  | nil =>
    have hopening := d.opening_ne_mark
    cases st with
    | plain => exact ⟨[], by simp [scan]⟩
    | marked => exact ⟨[.text d.mark], by simp [scan, hopening.symm]⟩
    | inName acc => exact absurd h (Nat.lt_irrefl 2)
  | cons c x ih =>
    obtain ⟨ps, hps⟩ := ih h
    cases st with
    | plain =>
      rw [List.cons_append, scan]
      -- a mark may begin a reference; any other character is text
      by_cases hc : c = d.mark
      · rw [next, if_pos hc] at hps
        rw [if_pos hc]
        exact ⟨ps, hps⟩
      · rw [next, if_neg hc] at hps
        rw [if_neg hc, hps]
        exact ⟨.text c :: ps, rfl⟩
    | marked =>
      rw [List.cons_append, scan]
      rw [next] at hps
      by_cases hc : c = d.opening
      · rw [if_pos hc] at hps ⊢
        exact ⟨ps, hps⟩
      · rw [if_neg hc] at hps ⊢
        by_cases hmark : c = d.mark
        · rw [if_pos hmark] at hps ⊢
          rw [hps]
          exact ⟨.text d.mark :: ps, rfl⟩
        · rw [if_neg hmark] at hps ⊢
          rw [hps]
          exact ⟨.text d.mark :: .text c :: ps, rfl⟩
    | inName acc =>
      rw [List.cons_append, scan]
      rw [next] at hps
      by_cases hc : c = d.closing
      · rw [if_pos hc] at hps ⊢
        rw [hps]
        exact ⟨.reference acc true :: ps, rfl⟩
      · rw [if_neg hc] at hps ⊢
        exact ⟨ps, hps⟩

/-- A name that is closed. -/
theorem scan_name_closing {acc name z : List α} (h : d.closing ∉ name) :
    scan d (.inName acc) (name ++ d.closing :: z) =
      .reference (acc ++ name) true :: scan d .plain z := by
  induction name generalizing acc with
  | nil => simp [scan]
  | cons c name ih =>
    rw [List.mem_cons, not_or] at h
    rw [List.cons_append, scan, if_neg (Ne.symm h.1), ih h.2, List.append_assoc]
    rfl

/-- A name that the end of the text closes. -/
theorem scan_name_end {acc name : List α} (h : d.closing ∉ name) (hend : d.closesAtEnd = true) :
    scan d (.inName acc) name = [.reference (acc ++ name) false] := by
  induction name generalizing acc with
  | nil => simp [scan, hend]
  | cons c name ih =>
    rw [List.mem_cons, not_or] at h
    rw [scan, if_neg (Ne.symm h.1), ih h.2, List.append_assoc]
    rfl

/-- A text that holds a reference where the scan is not in another one refers to the name. -/
theorem mem_pieces {x name y : List α} {closed : Bool} (hx : (after d plain x).rank < 2)
    (hname : d.closing ∉ name)
    (hend : closed = false → d.closesAtEnd = true ∧ y = []) :
    Piece.reference name closed ∈
      pieces d (x ++ Piece.render d (.reference name closed) ++ y) := by
  cases closed with
  | true =>
    obtain ⟨ps, hps⟩ := scan_append_reference hx (name ++ d.closing :: y)
    have htext : x ++ Piece.render d (.reference name true) ++ y =
        x ++ d.mark :: d.opening :: (name ++ d.closing :: y) := by
      simp [Piece.render]
    rw [pieces, htext, hps, scan_name_closing hname]
    simp
  | false =>
    obtain ⟨hclose, rfl⟩ := hend rfl
    obtain ⟨ps, hps⟩ := scan_append_reference hx name
    have htext : x ++ Piece.render d (.reference name false) ++ [] =
        x ++ d.mark :: d.opening :: name := by
      simp [Piece.render]
    rw [pieces, htext, hps, scan_name_end hname hclose]
    simp

/-! ## What comes of a text -/

/-- What comes of a piece when the texts of `raw` come out as they are. -/
def Piece.subst (d : Delimiters α) (raw : List α → Option (List α)) : Piece α → List α
  | .text c => [c]
  | .reference name _ =>
    match raw name with
    | some value => value
    | none => d.mark :: d.opening :: (name ++ [d.closing])

/-- Known references replaced by their texts, once. -/
def subst (d : Delimiters α) (raw : List α → Option (List α)) (ps : List (Piece α)) : List α :=
  ps.flatMap (Piece.subst d raw)

omit [DecidableEq α] in
theorem subst_cons (p : Piece α) (ps : List (Piece α)) :
    subst d raw (p :: ps) = p.subst d raw ++ subst d raw ps := List.flatMap_cons

omit [DecidableEq α] in
/-- A known reference is replaced. -/
theorem subst_known {name text : List α} {closed : Bool} (h : raw name = some text) :
    Piece.subst d raw (.reference name closed) = text := by
  rw [Piece.subst, h]

omit [DecidableEq α] in
/-- An unknown one is written with its end. -/
theorem subst_unknown {name : List α} {closed : Bool} (h : raw name = none) :
    Piece.subst d raw (.reference name closed) = Piece.render d (.reference name true) := by
  rw [Piece.subst, h]
  rfl

/-- A text has at most one expansion. -/
theorem Expands.unique {ps : List (Piece α)} {r s : List α} (hr : Expands d raw ps r)
    (hs : Expands d raw ps s) : r = s := by
  -- induction on the first derivation; each piece has only one rule
  induction hr generalizing s with
  | nil =>
    cases hs
    rfl
  | text c _ ih =>
    cases hs with
    | text _ hs => rw [ih hs]
  | reference hraw _ _ ihText ihRest =>
    cases hs with
    | reference hraw' hs' hs =>
      rw [hraw] at hraw'
      cases hraw'
      rw [ihText hs', ihRest hs]
    | unknown hnone _ =>
      rw [hraw] at hnone
      cases hnone
  | unknown hnone _ ih =>
    cases hs with
    | reference hraw _ _ =>
      rw [hraw] at hnone
      cases hnone
    | unknown _ hs => rw [ih hs]

/-- Nothing comes of a text with a reference to a text that refers to itself. -/
theorem Expands.not_circular {ps : List (Piece α)} {r : List α} (h : Expands d raw ps r)
    {name text : List α} {closed closed' : Bool} (hmem : .reference name closed ∈ ps)
    (hraw : raw name = some text) : .reference name closed' ∉ pieces d text := by
  induction h generalizing closed closed' with
  | nil => cases hmem
  | text c _ ih =>
    rcases List.mem_cons.mp hmem with heq | hmem
    · cases heq
    · exact ih hmem
  | reference hraw' _ _ ihText ihRest =>
    rcases List.mem_cons.mp hmem with heq | hmem
    · cases heq
      rw [hraw] at hraw'
      cases hraw'
      exact fun hself => ihText hself hself
    · exact ihRest hmem
  | unknown hnone _ ih =>
    rcases List.mem_cons.mp hmem with heq | hmem
    · cases heq
      rw [hraw] at hnone
      cases hnone
    · exact ih hmem

/-- The texts of `raw` come out as they are. -/
def Unchanged (d : Delimiters α) (raw : List α → Option (List α)) : Prop :=
  ∀ name text, raw name = some text → Expands d raw (pieces d text) text

/-- Where the texts of references have no references, one replacement is all. -/
theorem Expands.eq_subst (hraw : Unchanged d raw) {ps : List (Piece α)} {r : List α}
    (h : Expands d raw ps r) : r = subst d raw ps := by
  induction h with
  | nil => rfl
  | text c _ ih =>
    rw [ih]
    rfl
  | @reference name closed text r' ps r hname htext _ _ ihRest =>
    rw [subst_cons, subst_known hname, ihRest, htext.unique (hraw name text hname)]
  | unknown hname _ ih =>
    rw [subst_cons, subst_unknown hname, ih]
    rfl

/-- Inert pieces come out as they are. -/
theorem expands_of_inert {ps : List (Piece α)} (h : ∀ p ∈ ps, p.Inert raw) :
    Expands d raw ps (render d ps) := by
  induction ps with
  | nil => exact .nil
  | cons p ps ih =>
    have hrest := ih fun q hq => h q (List.mem_cons_of_mem p hq)
    cases p with
    | text c => exact .text c hrest
    | reference name closed =>
      obtain ⟨hnone, rfl⟩ := h _ List.mem_cons_self
      exact .unknown hnone hrest

/-! ## Texts that come out as they are -/

/-- Of two equal texts, one with `text` where the other has a reference to it: if `text` begins
earlier and does not end earlier, it refers to itself. -/
theorem self_reference {a b r r' name text : List α} {closed : Bool} (hlength : a.length ≤ b.length)
    (hb : (State.plain.after d b).rank < 2) (hname : d.closing ∉ name)
    (hend : closed = false → d.closesAtEnd = true ∧ r' = [])
    (hlong : b.length + (Piece.render d (.reference name closed)).length ≤
      a.length + text.length)
    (heq : a ++ (text ++ r) = b ++ (Piece.render d (.reference name closed) ++ r')) :
    .reference name closed ∈ pieces d text := by
  obtain ⟨x, rfl⟩ : ∃ x, b = a ++ x :=
    (List.prefix_of_prefix_length_le ⟨_, heq⟩ ⟨_, rfl⟩ hlength).imp fun _ h => h.symm
  have hx : (State.plain.after d x).rank < 2 := Nat.lt_of_le_of_lt (rank_after_suffix a x) hb
  rw [List.append_assoc, List.append_cancel_left_eq, ← List.append_assoc] at heq
  rw [List.length_append] at hlong
  obtain ⟨y, hy⟩ : x ++ Piece.render d (.reference name closed) <+: text :=
    List.prefix_of_prefix_length_le ⟨_, heq.symm⟩ ⟨_, rfl⟩ (by rw [List.length_append]; omega)
  rw [← hy]
  refine mem_pieces hx hname fun hclosed => ?_
  obtain ⟨hclose, rfl⟩ := hend hclosed
  refine ⟨hclose, ?_⟩
  have hlengths := congrArg List.length heq
  rw [← hy] at hlengths
  simp only [List.length_append, List.length_nil] at hlengths
  exact List.eq_nil_of_length_eq_zero (by omega)

/-- `b` may have been read before what the scan is in. -/
def Ready (d : Delimiters α) (b : List α) : State α → Prop
  | .plain => State.plain.after d b = .plain
  | .marked => (State.plain.after d b).rank < 2
  | .inName acc => (State.plain.after d b).rank < 2 ∧ d.closing ∉ acc

theorem after_append_singleton (b : List α) (c : α) :
    State.plain.after d (b ++ [c]) = (State.plain.after d b).next d c := List.foldl_concat ..

theorem ready_closing (b : List α) : Ready d (b ++ [d.closing]) .plain := by
  have hmark := d.closing_ne_mark
  have hopening := d.closing_ne_opening
  show State.plain.after d (b ++ [d.closing]) = .plain
  rw [after_append_singleton]
  cases State.plain.after d b with
  | plain => rw [State.next, if_neg hmark]
  | marked => rw [State.next, if_neg hopening, if_neg hmark]
  | inName acc => rw [State.next, if_pos rfl]

theorem ready_mark {b : List α} (h : (State.plain.after d b).rank < 2) :
    State.plain.after d (b ++ [d.mark]) = .marked := by
  rw [after_append_singleton]
  cases hst : State.plain.after d b with
  | plain => rw [State.next, if_pos rfl]
  | marked => rw [State.next, if_neg d.opening_ne_mark.symm, if_pos rfl]
  | inName acc =>
    rw [hst] at h
    exact absurd h (Nat.lt_irrefl 2)

/-- A reference to a text of `raw` is longer than that text, if what is read is what comes out:
else the text would refer to itself. -/
theorem length_lt_of_known (hraw : Unchanged d raw) {closed : Bool} {a b r r' name text : List α}
    (hname : raw name = some text) (hlength : a.length ≤ b.length)
    (hb : (State.plain.after d b).rank < 2) (hclosing : d.closing ∉ name)
    (hend : closed = false → d.closesAtEnd = true ∧ r' = [])
    (heq : a ++ (text ++ r) = b ++ (Piece.render d (.reference name closed) ++ r')) :
    a.length + text.length < b.length + (Piece.render d (.reference name closed)).length := by
  by_contra hlong
  have hself := self_reference hlength hb hclosing hend (Nat.not_lt.mp hlong) heq
  exact (hraw name text hname).not_circular hself hname hself

/-- At the end of the text nothing is replaced. -/
theorem inert_of_subst_nil (hraw : Unchanged d raw) (st : State α) {a b : List α}
    (hready : Ready d b st) (hlength : a.length ≤ b.length)
    (heq : a ++ subst d raw (scan d st []) = b ++ (st.pending d ++ [])) :
    a.length = b.length ∧ ∀ p ∈ scan d st [], p.Inert raw := by
  cases st with
  | plain => exact ⟨by simpa [scan, subst, State.pending] using congrArg List.length heq, nofun⟩
  | marked =>
    refine ⟨by simpa [scan, subst, Piece.subst, State.pending] using congrArg List.length heq, ?_⟩
    simp [scan, Piece.Inert]
  | inName acc =>
    obtain ⟨hb, hclosing⟩ := hready
    rw [scan] at heq ⊢
    -- at the end an open reference may count as closed
    by_cases hend : d.closesAtEnd = true
    · rw [if_pos hend, subst_cons] at heq
      rw [if_pos hend]
      cases hname : raw acc with
      | some text =>
        have htext : a ++ (text ++ []) = b ++ (Piece.render d (.reference acc false) ++ []) := by
          rw [subst_known hname] at heq
          change a ++ (text ++ []) = _ at heq
          rw [heq]
          simp [State.pending, Piece.render]
        have hlt := length_lt_of_known hraw hname hlength hb hclosing (fun _ => ⟨hend, rfl⟩) htext
        have hlengths := congrArg List.length htext
        simp only [List.length_append, List.length_nil] at hlengths
        omega
      | none =>
        -- the end of the reference is written after all
        rw [subst_unknown hname] at heq
        have hlengths := congrArg List.length heq
        simp [Piece.render, State.pending, subst] at hlengths
        obtain ⟨x, rfl⟩ : ∃ x, b = a ++ x :=
          (List.prefix_of_prefix_length_le ⟨_, heq⟩ ⟨_, rfl⟩ hlength).imp fun _ h => h.symm
        rw [List.length_append] at hlengths
        obtain ⟨y, rfl⟩ := List.length_eq_one_iff.mp (show x.length = 1 by omega)
        rw [List.append_assoc, List.append_cancel_left_eq] at heq
        have hsecond := (List.cons.inj (List.cons.inj heq).2).1
        exact absurd hsecond d.opening_ne_mark
    · rw [if_neg hend] at heq ⊢
      have hsame : subst d raw ((d.mark :: d.opening :: acc).map Piece.text) =
          d.mark :: d.opening :: acc := by
        simp [subst, List.flatMap_map, Piece.subst, List.flatMap_singleton']
      rw [hsame] at heq
      refine ⟨by simpa [State.pending] using congrArg List.length heq, fun p hp => ?_⟩
      obtain ⟨c, -, rfl⟩ := List.mem_map.mp hp
      trivial

/-- A text that refers to a text of `raw` does not come out as it is: what follows a reference is
shifted to the left from there on. -/
theorem inert_of_subst (hraw : Unchanged d raw) (z : List α) (st : State α) {a b : List α}
    (hready : Ready d b st) (hlength : a.length ≤ b.length)
    (heq : a ++ subst d raw (scan d st z) = b ++ (st.pending d ++ z)) :
    a.length = b.length ∧ ∀ p ∈ scan d st z, p.Inert raw := by
  -- induction on the text that is left, for every state of the scanner
  induction z generalizing st a b with
  | nil => exact inert_of_subst_nil hraw st hready hlength heq
  | cons c z ih =>
    cases st with
    | plain =>
      rw [scan] at heq ⊢
      -- a mark begins a reference, if the opening follows
      by_cases hc : c = d.mark
      · rw [if_pos hc] at heq ⊢
        have hb : (State.plain.after d b).rank < 2 := by
          rw [show State.plain.after d b = .plain from hready]
          exact Nat.zero_lt_two
        exact ih .marked hb hlength (by rw [heq, hc]; rfl)
      · rw [if_neg hc] at heq ⊢
        have hnext : Ready d (b ++ [c]) .plain := by
          show State.plain.after d (b ++ [c]) = .plain
          rw [after_append_singleton, show State.plain.after d b = .plain from hready, State.next,
            if_neg hc]
        have htext : (a ++ [c]) ++ subst d raw (scan d .plain z) = (b ++ [c]) ++ z := by
          rw [List.append_assoc, List.append_assoc]
          exact heq
        obtain ⟨hlengths, hinert⟩ := ih _ hnext (by simpa using hlength) htext
        exact ⟨by simpa using hlengths, List.forall_mem_cons.mpr ⟨trivial, hinert⟩⟩
    | marked =>
      rw [scan] at heq ⊢
      -- the name of a reference begins, or the mark was text
      by_cases hc : c = d.opening
      · rw [if_pos hc] at heq ⊢
        exact ih (.inName []) ⟨hready, List.not_mem_nil⟩ hlength (by rw [heq, hc]; rfl)
      rw [if_neg hc] at heq ⊢
      have hmarked : State.plain.after d (b ++ [d.mark]) = .marked := ready_mark hready
      by_cases hmark : c = d.mark
      · rw [if_pos hmark, hmark] at heq
        rw [if_pos hmark]
        have hnext : Ready d (b ++ [d.mark]) .marked := by
          show (State.plain.after d (b ++ [d.mark])).rank < 2
          rw [hmarked]
          exact Nat.one_lt_two
        have htext : (a ++ [d.mark]) ++ subst d raw (scan d .marked z) =
            (b ++ [d.mark]) ++ (d.mark :: z) := by
          rw [List.append_assoc, List.append_assoc]
          exact heq
        obtain ⟨hlengths, hinert⟩ := ih _ hnext (by simpa using hlength) htext
        exact ⟨by simpa using hlengths, List.forall_mem_cons.mpr ⟨trivial, hinert⟩⟩
      · rw [if_neg hmark] at heq ⊢
        have hnext : Ready d (b ++ [d.mark, c]) .plain := by
          show State.plain.after d (b ++ [d.mark, c]) = .plain
          rw [← List.singleton_append, ← List.append_assoc, after_append_singleton, hmarked,
            State.next, if_neg hc, if_neg hmark]
        have htext : (a ++ [d.mark, c]) ++ subst d raw (scan d .plain z) =
            (b ++ [d.mark, c]) ++ z := by
          rw [List.append_assoc, List.append_assoc]
          exact heq
        obtain ⟨hlengths, hinert⟩ := ih _ hnext (by simpa using hlength) htext
        refine ⟨by simpa using hlengths, ?_⟩
        exact List.forall_mem_cons.mpr ⟨trivial, List.forall_mem_cons.mpr ⟨trivial, hinert⟩⟩
    | inName acc =>
      obtain ⟨hb, hclosing⟩ := hready
      rw [scan] at heq ⊢
      by_cases hc : c = d.closing
      swap
      · rw [if_neg hc] at heq ⊢
        have hnext : d.closing ∉ acc ++ [c] := by simp [hclosing, Ne.symm hc]
        refine ih (.inName (acc ++ [c])) ⟨hb, hnext⟩ hlength ?_
        rw [heq]
        simp [State.pending]
      rw [if_pos hc, subst_cons] at heq
      rw [if_pos hc]
      -- the reference ends here, and the rest is read on its own
      have htail : b ++ (State.pending d (.inName acc) ++ c :: z) =
          b ++ (Piece.render d (.reference acc true) ++ z) := by
        simp [State.pending, Piece.render, hc]
      rw [htail] at heq
      have hnext : Ready d (b ++ Piece.render d (.reference acc true)) .plain := by
        have hsplit : b ++ Piece.render d (.reference acc true) =
            (b ++ d.mark :: d.opening :: acc) ++ [d.closing] := by
          simp [Piece.render]
        rw [hsplit]
        exact ready_closing _
      cases hname : raw acc with
      -- a known name is replaced, an unknown one stays as it was
      | some text =>
        rw [subst_known hname] at heq
        have hlt : a.length + text.length <
            b.length + (Piece.render d (.reference acc true)).length :=
          length_lt_of_known hraw hname hlength hb hclosing nofun heq
        rw [← List.append_assoc, ← List.append_assoc] at heq
        have hlengths := (ih _ hnext (by simp only [List.length_append]; omega) heq).1
        simp only [List.length_append] at hlengths
        omega
      | none =>
        rw [subst_unknown hname, ← List.append_assoc, ← List.append_assoc] at heq
        obtain ⟨hlengths, hinert⟩ := ih _ hnext (by simpa using hlength) heq
        exact ⟨by simpa using hlengths, List.forall_mem_cons.mpr ⟨⟨hname, rfl⟩, hinert⟩⟩

/-- **The texts come out as they are** if and only if every piece of them does. -/
theorem unchanged_iff : Unchanged d raw ↔
    ∀ name text, raw name = some text → ∀ p ∈ pieces d text, p.Inert raw := by
  constructor
  · intro hraw name text hname
    have hsubst := (hraw name text hname).eq_subst hraw
    exact (inert_of_subst hraw text .plain (a := []) (b := []) rfl (Nat.le_refl 0)
      hsubst.symm).2
  · intro hinert name text hname
    have hexpands : Expands d raw (pieces d text) (render d (pieces d text)) :=
      expands_of_inert (hinert name text hname)
    rwa [render_pieces] at hexpands

/-! ## The result, computed -/

section
variable (d raw)

/-- The expansion of each piece, put together; `none` where the depth is used up. -/
def expandPieces (expandText : List α → Option (List α)) : List (Piece α) → Option (List α)
  | [] => some []
  | .text c :: ps => (expandPieces expandText ps).map (c :: ·)
  | .reference name _ :: ps =>
    match raw name with
    | some text => (expandText text).bind fun r' => (expandPieces expandText ps).map (r' ++ ·)
    | none => (expandPieces expandText ps).map (d.mark :: d.opening :: (name ++ [d.closing]) ++ ·)

/-- `none` when there are more references within one another than `depth`. -/
def expand : ℕ → List α → Option (List α)
  | 0, _ => none
  | depth + 1, text => expandPieces d raw (expand depth) (pieces d text)

end

/-- What is computed for the pieces is their expansion, if that holds for the texts of
references. -/
theorem expands_of_expandPieces {expandText : List α → Option (List α)}
    (htext : ∀ text r, expandText text = some r → Expands d raw (pieces d text) r)
    {ps : List (Piece α)} {r : List α} (h : expandPieces d raw expandText ps = some r) :
    Expands d raw ps r := by
  -- induction on the pieces
  induction ps generalizing r with
  | nil =>
    cases h
    exact .nil
  | cons p ps ih =>
    cases p with
    | text c =>
      obtain ⟨rest, hrest, rfl⟩ := Option.map_eq_some_iff.mp h
      exact .text c (ih hrest)
    | reference name closed =>
      rw [expandPieces] at h
      cases hname : raw name with
      | some text =>
        rw [hname] at h
        obtain ⟨r', hr', h⟩ := Option.bind_eq_some_iff.mp h
        obtain ⟨rest, hrest, rfl⟩ := Option.map_eq_some_iff.mp h
        exact .reference hname (htext text r' hr') (ih hrest)
      | none =>
        rw [hname] at h
        obtain ⟨rest, hrest, rfl⟩ := Option.map_eq_some_iff.mp h
        exact .unknown hname (ih hrest)

/-- What is computed is the expansion. -/
theorem expands_of_expand {depth : ℕ} {text r : List α} (h : expand d raw depth text = some r) :
    Expands d raw (pieces d text) r := by
  induction depth generalizing text r with
  | zero => cases h
  | succ depth ih => exact expands_of_expandPieces (fun _ _ => ih) h

/-- A text with no references to follow. -/
theorem isSome_expand {depth : ℕ} {text : List α}
    (h : ∀ name closed, .reference name closed ∈ pieces d text → raw name = none) :
    (expand d raw (depth + 1) text).isSome := by
  rw [expand]
  generalize pieces d text = ps at h
  induction ps with
  | nil => rfl
  | cons p ps ih =>
    have hrest := ih fun name closed hmem => h name closed (List.mem_cons_of_mem p hmem)
    cases p with
    | text c => simpa [expandPieces] using hrest
    | reference name closed =>
      have hname := h name closed List.mem_cons_self
      simpa [expandPieces, hname] using hrest

end References
