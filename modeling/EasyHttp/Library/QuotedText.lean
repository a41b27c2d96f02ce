import Mathlib.Algebra.Ring.Nat
import Mathlib.Data.List.Basic
import Mathlib.Tactic.SplitIfs

/-!
# Text with quoted literals

Scanning a text in which a literal is opened by a quote symbol `q`, ends at the next `q`
that is not doubled, and holds `q q` for one `q`. Everything is over an arbitrary symbol
type.

* `scan` cuts a text into its plain symbols and its literals;
* `render` writes items back, doubling quotes, and `render_scan` says that no text loses
  anything by being scanned;
* a *template* is a list of plain stretches and values; `splice` puts the values between
  quotes as they stand. `scan_splice_iff` is the main result: the scan sees exactly the
  template if and only if no stretch and no value contains the quote.
-/

namespace QuotedText

variable {α : Type*} [DecidableEq α]

/-- What a scan reports: a plain symbol, a literal with its decoded content, or a literal
still open when the text ends. -/
inductive Item (α : Type*) where
  | text (c : α)
  | literal (s : List α)
  | unclosed (s : List α)
deriving DecidableEq

/-- The scanner. `none` is plain text, `some acc` is inside a literal that reads `acc` so
far. -/
def scan (q : α) : Option (List α) → List α → List (Item α)
  | none, [] => []
  | none, c :: cs => if c = q then scan q (some []) cs else .text c :: scan q none cs
  | some acc, [] => [.unclosed acc]
  | some acc, [c] => if c = q then [.literal acc] else [.unclosed (acc ++ [c])]
  | some acc, c :: d :: ds =>
    if c = q then
      if d = q then scan q (some (acc ++ [q])) ds else .literal acc :: .text d :: scan q none ds
    else scan q (some (acc ++ [c])) (d :: ds)

/-! ## Writing items back -/

/-- Every quote doubled. -/
def double (q : α) (s : List α) : List α := s.flatMap fun c => if c = q then [q, q] else [c]

/-- The text of one item. -/
def Item.render (q : α) : Item α → List α
  | .text c => [c]
  | .literal s => q :: double q s ++ [q]
  | .unclosed s => q :: double q s

/-- The text of a list of items. -/
def render (q : α) (items : List (Item α)) : List α := items.flatMap (Item.render q)

/-- What the scanner has consumed without reporting it. -/
def pending (q : α) : Option (List α) → List α
  | none => []
  | some acc => q :: double q acc

@[simp] theorem double_nil (q : α) : double q [] = [] := rfl

@[simp] theorem double_append (q : α) (s t : List α) :
    double q (s ++ t) = double q s ++ double q t := List.flatMap_append

@[simp] theorem double_quote (q : α) : double q [q] = [q, q] := by simp [double]

/-- Only the quote is doubled. -/
theorem double_singleton {q c : α} (h : c ≠ q) : double q [c] = [c] := by simp [double, h]

/-- Doubling lengthens exactly the lists that contain the quote. -/
theorem length_double (q : α) (s : List α) : (double q s).length = s.length + s.count q := by
  induction s with
  | nil => rfl
  | cons c s ih =>
    rw [← List.singleton_append, double_append, List.length_append, ih]
    by_cases h : c = q
    · subst h
      simp
      omega
    · rw [double_singleton h]
      simp [h]
      omega

@[simp] theorem render_nil (q : α) : render q [] = [] := rfl

@[simp] theorem render_cons (q : α) (i : Item α) (items : List (Item α)) :
    render q (i :: items) = i.render q ++ render q items := List.flatMap_cons

@[simp] theorem render_append (q : α) (is js : List (Item α)) :
    render q (is ++ js) = render q is ++ render q js := List.flatMap_append

/-- A scan loses nothing: its items, written back, are the text. -/
theorem render_scan_pending (q : α) (mode : Option (List α)) (cs : List α) :
    render q (scan q mode cs) = pending q mode ++ cs := by
  induction mode, cs using scan.induct q with
  | case1 => rfl
  | case2 cs ih => simpa [scan, pending] using ih
  | case3 c cs h ih => simpa [scan, h, Item.render, pending] using ih
  | case4 acc => simp [scan, Item.render, pending]
  | case5 acc => simp [scan, Item.render, pending]
  | case6 acc c h => simp [scan, h, Item.render, pending, double_singleton h]
  | case7 acc ds ih => simpa [scan, pending] using ih
  | case8 acc d ds h ih =>
    simp only [scan, if_true, if_neg h, render_cons, ih]
    simp [Item.render, pending]
  | case9 acc c d ds h ih =>
    rw [scan, if_neg h, ih]
    simp [pending, double_singleton h]

/-- Writing the items of a text gives the text back. -/
theorem render_scan (q : α) (cs : List α) : render q (scan q none cs) = cs :=
  render_scan_pending q none cs

/-- A scan never reports the quote as plain text. -/
theorem text_quote_notMem_scan (q : α) (mode : Option (List α)) (cs : List α) :
    Item.text q ∉ scan q mode cs := by
  induction mode, cs using scan.induct q with
  | case1 => simp [scan]
  | case2 cs ih => simpa [scan] using ih
  | case3 c cs h ih => simpa [scan, h, Ne.symm h] using ih
  | case4 acc => simp [scan]
  | case5 acc => simp [scan]
  | case6 acc c h => simp [scan, h]
  | case7 acc ds ih => simpa [scan] using ih
  | case8 acc d ds h ih => simpa [scan, h, Ne.symm h] using ih
  | case9 acc c d ds h ih => simpa [scan, h] using ih

/-! ## Scanning piece by piece -/

/-- Plain text without a quote is reported symbol by symbol. -/
theorem scan_plain_append {q : α} {xs : List α} (h : q ∉ xs) (ys : List α) :
    scan q none (xs ++ ys) = xs.map Item.text ++ scan q none ys := by
  induction xs with
  | nil => rfl
  | cons c xs ih =>
    rw [List.mem_cons, not_or] at h
    rw [List.cons_append, scan, if_neg (Ne.symm h.1), ih h.2]
    rfl

/-- Inside a literal, symbols other than the quote are collected. -/
theorem scan_literal_append {q : α} {v : List α} (h : q ∉ v) (acc ys : List α) :
    scan q (some acc) (v ++ q :: ys) = scan q (some (acc ++ v)) (q :: ys) := by
  induction v generalizing acc with
  | nil => simp
  | cons c v ih =>
    rw [List.mem_cons, not_or] at h
    have hc : c ≠ q := Ne.symm h.1
    -- the rest is never empty, so the scanner is in its look-ahead case
    obtain ⟨d, ds, hd⟩ : ∃ d ds, v ++ q :: ys = d :: ds := by
      cases v with
      | nil => exact ⟨q, ys, rfl⟩
      | cons d v => exact ⟨d, v ++ q :: ys, rfl⟩
    rw [List.cons_append, hd, scan, if_neg hc, ← hd, ih h.2]
    simp

/-- A closing quote that is not doubled ends the literal. -/
theorem scan_close {q : α} (acc ys : List α) (h : ys.head? ≠ some q) :
    scan q (some acc) (q :: ys) = .literal acc :: scan q none ys := by
  cases ys with
  | nil => simp [scan]
  | cons d ds =>
    have hd : d ≠ q := by simpa using h
    simp [scan, hd]

/-- A quote-free value between quotes is one literal, read back unchanged. -/
theorem scan_quoted {q : α} {v ys : List α} (hv : q ∉ v) (hys : ys.head? ≠ some q) :
    scan q none (q :: (v ++ q :: ys)) = .literal v :: scan q none ys := by
  rw [scan, if_pos rfl, scan_literal_append hv, List.nil_append, scan_close v ys hys]

/-! ## Templates -/

/-- A stretch of plain text, or a value to be put between quotes. -/
inductive Piece (α : Type*) where
  | plain (xs : List α)
  | value (v : List α)
deriving DecidableEq

/-- The symbols of a piece. -/
def Piece.content : Piece α → List α
  | .plain xs => xs
  | .value v => v

/-- The text of a piece, the value put between quotes as it stands. -/
def Piece.splice (q : α) : Piece α → List α
  | .plain xs => xs
  | .value v => q :: v ++ [q]

/-- What a reader should see of a piece. -/
def Piece.items : Piece α → List (Item α)
  | .plain xs => xs.map Item.text
  | .value v => [.literal v]

/-- The text of a template. -/
def splice (q : α) (t : List (Piece α)) : List α := t.flatMap (Piece.splice q)

/-- What a reader should see of a template. -/
def items (t : List (Piece α)) : List (Item α) := t.flatMap Piece.items

/-- After every value comes plain text, so that two literals never touch. `last` says
whether a value may end the template. -/
def Spaced (last : Bool) : List (Piece α) → Prop
  | [] => True
  | [.value _] => last = true
  | .value _ :: .plain (x :: xs) :: t => Spaced last (.plain (x :: xs) :: t)
  | .value _ :: _ => False
  | .plain _ :: t => Spaced last t

section
omit [DecidableEq α]

@[simp] theorem splice_nil (q : α) : splice q ([] : List (Piece α)) = [] := rfl

@[simp] theorem splice_cons (q : α) (p : Piece α) (t : List (Piece α)) :
    splice q (p :: t) = p.splice q ++ splice q t := List.flatMap_cons

@[simp] theorem splice_append (q : α) (s t : List (Piece α)) :
    splice q (s ++ t) = splice q s ++ splice q t := List.flatMap_append

@[simp] theorem items_nil : items ([] : List (Piece α)) = [] := rfl

@[simp] theorem items_cons (p : Piece α) (t : List (Piece α)) :
    items (p :: t) = p.items ++ items t := List.flatMap_cons

@[simp] theorem items_append (s t : List (Piece α)) : items (s ++ t) = items s ++ items t :=
  List.flatMap_append

end

@[simp] theorem render_map_text (q : α) (xs : List α) : render q (xs.map Item.text) = xs := by
  induction xs with
  | nil => rfl
  | cons c xs ih => simp [Item.render, ih]

/-- How many quotes a piece puts inside its value. -/
def Piece.quotes (q : α) : Piece α → ℕ
  | .plain _ => 0
  | .value v => v.count q

/-- Written back, the items of a template are as long as its spliced text plus one symbol
for every quote inside a value. -/
theorem length_render_items (q : α) (t : List (Piece α)) :
    (render q (items t)).length = (splice q t).length + (t.map (Piece.quotes q)).sum := by
  induction t with
  | nil => rfl
  | cons p t ih =>
    cases p with
    | plain xs =>
      simp only [items_cons, Piece.items, render_append, render_map_text, splice_cons,
        Piece.splice, Piece.quotes, List.length_append, List.map_cons, List.sum_cons, ih]
      omega
    | value v =>
      have hv := length_double q v
      simp only [items_cons, Piece.items, render_append, render_cons, render_nil, Item.render,
        splice_cons, Piece.splice, Piece.quotes, List.length_append, List.length_cons,
        List.length_nil, List.map_cons, List.sum_cons, ih, hv]
      omega

/-- If a template is read back as it was meant, no piece of it contains the quote. -/
theorem notMem_of_scan_splice {q : α} {t : List (Piece α)} {ys : List α}
    (h : scan q none (splice q t ++ ys) = items t ++ scan q none ys) :
    ∀ p ∈ t, q ∉ p.content := by
  have hlen := congrArg (fun l => (render q l).length) h
  simp only [render_scan, render_append, List.length_append, length_render_items] at hlen
  have hsum : (t.map (Piece.quotes q)).sum = 0 := by omega
  rw [List.sum_eq_zero_iff_forall_eq_nat] at hsum
  intro p hp
  cases p with
  | plain xs =>
    intro hq
    apply text_quote_notMem_scan q none (splice q t ++ ys)
    rw [h, List.mem_append]
    left
    exact List.mem_flatMap.mpr ⟨_, hp, List.mem_map.mpr ⟨q, hq, rfl⟩⟩
  | value v =>
    have hv := hsum _ (List.mem_map.mpr ⟨_, hp, rfl⟩)
    exact List.count_eq_zero.mp hv

/-- A spaced template without quotes is read back as it was meant, whatever follows. -/
theorem scan_splice_of_notMem {q : α} {last : Bool} {t : List (Piece α)} (hsp : Spaced last t)
    (hq : ∀ p ∈ t, q ∉ p.content) {ys : List α} (hys : last = true → ys.head? ≠ some q) :
    scan q none (splice q t ++ ys) = items t ++ scan q none ys := by
  -- along the pieces: a value is between its quotes, a plain text outside
  induction t using Spaced.induct with
  | case1 => rfl
  | case2 v =>
    have hv : q ∉ v := hq (.value v) (by simp)
    simpa [Piece.splice, Piece.items] using scan_quoted hv (hys hsp)
  | case3 v x xs t ih =>
    have hv : q ∉ v := hq (.value v) (by simp)
    have hx : q ∉ x :: xs := hq (.plain (x :: xs)) (by simp)
    have hrest := ih hsp fun p hp => hq p (List.mem_cons_of_mem _ hp)
    have hhead : (splice q (.plain (x :: xs) :: t) ++ ys).head? ≠ some q := by
      simp only [splice_cons, Piece.splice, List.cons_append, List.head?_cons, ne_eq,
        Option.some.injEq]
      rintro rfl
      exact hx List.mem_cons_self
    rw [items_cons, List.append_assoc, ← hrest, splice_cons, Piece.splice, Piece.items]
    simpa using scan_quoted hv hhead
  | case4 v t h1 h2 => exact absurd hsp (by cases t <;> simp_all [Spaced])
  | case5 xs t ih =>
    have hx : q ∉ xs := hq (.plain xs) (by simp)
    have hrest := ih hsp fun p hp => hq p (List.mem_cons_of_mem _ hp)
    rw [items_cons, List.append_assoc, ← hrest, splice_cons, Piece.splice, Piece.items,
      List.append_assoc, scan_plain_append hx]

/-! ## Where a symbol occurs in a template -/

section
omit [DecidableEq α]

/-- `c` does not occur in the plain text of the template. -/
def NotInText (c : α) : List (Piece α) → Prop
  | [] => True
  | .plain xs :: t => c ∉ xs ∧ NotInText c t
  | .value _ :: t => NotInText c t

/-- `c` does not occur in a value of the template. -/
def NotInValues (c : α) : List (Piece α) → Prop
  | [] => True
  | .plain _ :: t => NotInValues c t
  | .value v :: t => c ∉ v ∧ NotInValues c t

/-- A character is in the text of neither part. -/
theorem notInText_append {c : α} {s t : List (Piece α)} :
    NotInText c (s ++ t) ↔ NotInText c s ∧ NotInText c t := by
  induction s using NotInText.induct with
  | case1 => simp [NotInText]
  | case2 xs s ih => simp [NotInText, ih, and_assoc]
  | case3 v s ih => simpa [NotInText] using ih

/-- A character is in a value of neither part. -/
theorem notInValues_append {c : α} {s t : List (Piece α)} :
    NotInValues c (s ++ t) ↔ NotInValues c s ∧ NotInValues c t := by
  induction s using NotInValues.induct with
  | case1 => simp [NotInValues]
  | case2 xs s ih => simpa [NotInValues] using ih
  | case3 v s ih => simp [NotInValues, ih, and_assoc]

/-- The pieces are its text and its values. -/
theorem notMem_content_iff {c : α} {t : List (Piece α)} :
    (∀ p ∈ t, c ∉ p.content) ↔ NotInText c t ∧ NotInValues c t := by
  induction t using NotInText.induct with
  | case1 => simp [NotInText, NotInValues]
  | case2 xs t ih =>
    rw [List.forall_mem_cons, ih]
    exact and_assoc.symm
  | case3 v t ih =>
    rw [List.forall_mem_cons, ih]
    exact and_left_comm

/-- The text of a template has no other symbols than its pieces and the quote. -/
theorem notMem_splice {c q : α} {t : List (Piece α)} (hne : c ≠ q)
    (h : ∀ p ∈ t, c ∉ p.content) : c ∉ splice q t := by
  unfold splice
  rw [List.mem_flatMap]
  rintro ⟨p, hp, hc⟩
  have hcontent := h p hp
  cases p with
  | plain xs => exact hcontent hc
  | value v =>
    have hc : c = q ∨ c ∈ v ++ [q] := List.mem_cons.mp hc
    rw [List.mem_append, List.mem_singleton] at hc
    rcases hc with heq | hv | heq
    · exact hne heq
    · exact hcontent hv
    · exact hne heq

/-- Items that are no text come from quotes, so only the text of the pieces counts. -/
theorem text_notMem_items_iff {c : α} {t : List (Piece α)} :
    Item.text c ∉ items t ↔ NotInText c t := by
  induction t using NotInText.induct with
  | case1 => simp [NotInText]
  | case2 xs t ih => simp [NotInText, ← ih, Piece.items]
  | case3 v t ih => simp [NotInText, ← ih, Piece.items]

end

/-- **Reading a spliced template back.** The scan of a spaced template sees exactly its
plain text and its values if and only if neither contains the quote. -/
theorem scan_splice_iff {q : α} {last : Bool} {t : List (Piece α)} (hsp : Spaced last t)
    {ys : List α} (hys : last = true → ys.head? ≠ some q) :
    scan q none (splice q t ++ ys) = items t ++ scan q none ys ↔
      NotInText q t ∧ NotInValues q t := by
  rw [← notMem_content_iff]
  exact ⟨notMem_of_scan_splice, fun hq => scan_splice_of_notMem hsp hq hys⟩

end QuotedText
