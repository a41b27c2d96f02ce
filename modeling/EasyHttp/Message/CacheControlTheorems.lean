import EasyHttp.Library.Exec
import EasyHttp.Message.CacheControl
import Mathlib.Data.List.TakeWhile

/-!
# What the headers say

The directives of a header list stand in the values of its `Cache-Control` headers, and `no-cache`
may stand in a `Pragma` header too. The loops of `createFromHeaders` come down to this list of
directives.

* `createFromHeaders_eq`: the result, from the directives alone;
* `createFromHeaders_isOk_iff`: which headers it throws at;
* `number_applyAll`, `says_applyAll`: the last of a numeric directive counts, and any of the others;
* `createFromHeaders_folds`: one line may stand for several;
* `createFromHeaders_congr`, `createFromHeaders_of_append`: headers that share values or items.
-/

namespace EasyHttp.CacheControl

open HttpConstants Exec
open ListMap (values)

variable {poco : Poco}

/-! ## Tokens -/

/-- Nothing is left of a text of spaces. -/
theorem trim_eq_nil_iff {cs : List Char} : trim cs = [] ↔ ∀ c ∈ cs, isSpace c = true := by
  unfold trim
  rw [List.reverse_eq_nil_iff, List.dropWhile_eq_nil_iff]
  constructor
  · intro h c hc
    rw [← List.takeWhile_append_dropWhile (p := isSpace) (l := cs)] at hc
    rcases List.mem_append.mp hc with hc | hc
    · exact List.mem_takeWhile_imp hc
    · exact h c (List.mem_reverse.mpr hc)
  · intro h c hc
    exact h c ((List.dropWhile_sublist isSpace).subset (List.mem_reverse.mp hc))

/-- What holds of the pieces' characters holds of all but the separators. -/
theorem forall_mem_splitOn {p : Char → Prop} {separator : Char} {s : List Char} :
    (∀ piece ∈ s.splitOn separator, ∀ c ∈ piece, p c) ↔ ∀ c ∈ s, c = separator ∨ p c := by
  induction s with
  | nil => simp
  | cons c s ih =>
    obtain ⟨piece, pieces, hpieces⟩ := List.exists_cons_of_ne_nil (List.splitOn_ne_nil separator s)
    rw [List.splitOn_cons_eq_if_modifyHead]
    rw [hpieces] at ih ⊢
    by_cases hc : c = separator
    · simp [hc, ← ih]
    · simp [hc, ← ih, and_assoc]

/-- There is no token in separators and spaces. -/
theorem tokens_eq_nil_iff {separator : Char} {s : List Char} :
    tokens separator s = [] ↔ ∀ c ∈ s, c = separator ∨ isSpace c = true := by
  rw [← forall_mem_splitOn]
  simp [tokens, trim_eq_nil_iff]

/-- The tokens of two texts with a separator between them. -/
theorem tokens_append (separator : Char) (s t : List Char) :
    tokens separator (s ++ separator :: t) = tokens separator s ++ tokens separator t := by
  simp [tokens, List.splitOn_append_cons_self]

/-- Of joined texts there are the tokens of each. -/
theorem tokens_intercalate (separator : Char) (texts : List (List Char)) :
    tokens separator (List.intercalate [separator] texts) = texts.flatMap (tokens separator) := by
  induction texts with
  | nil => rfl
  | cons text texts ih =>
    cases texts with
    | nil => simp
    | cons next texts =>
      rw [List.intercalate_cons_cons, List.append_assoc, List.singleton_append, tokens_append, ih]
      rfl

/-! ## Directives -/

/-- The directives that carry a number. -/
inductive NumericDirective where
  | maxAge
  | sMaxAge
  | maxStale
  | minFresh
deriving DecidableEq

/-- The directives that are there or not. -/
inductive BooleanDirective where
  | mustRevalidate
  | noCache
  | noStore
  | noTransform
  | onlyIfCached
  | isPublic
  | isPrivate
deriving DecidableEq

namespace NumericDirective

/-- The directive as it is written. -/
def name : NumericDirective → String
  | maxAge => CacheDirectives.MaxAge
  | sMaxAge => CacheDirectives.SMaxAge
  | maxStale => CacheDirectives.MaxStale
  | minFresh => CacheDirectives.MinFresh

/-- -1 when the directive is absent. -/
def get (cacheControl : CacheControl) : NumericDirective → Int64
  | maxAge => cacheControl.maxAgeSec
  | sMaxAge => cacheControl.sMaxAgeSec
  | maxStale => cacheControl.maxStaleSec
  | minFresh => cacheControl.minFreshSec

def set (builder : CacheControl) (number : Int64) : NumericDirective → CacheControl
  | maxAge => { builder with maxAgeSec := number }
  | sMaxAge => { builder with sMaxAgeSec := number }
  | maxStale => { builder with maxStaleSec := number }
  | minFresh => { builder with minFreshSec := number }

end NumericDirective

namespace BooleanDirective

def name : BooleanDirective → String
  | mustRevalidate => CacheDirectives.MustRevalidate
  | noCache => CacheDirectives.NoCache
  | noStore => CacheDirectives.NoStore
  | noTransform => CacheDirectives.NoTransform
  | onlyIfCached => CacheDirectives.OnlyIfCached
  | isPublic => CacheDirectives.Public
  | isPrivate => CacheDirectives.Private

def get (cacheControl : CacheControl) : BooleanDirective → Bool
  | mustRevalidate => cacheControl.mustRevalidate
  | noCache => cacheControl.noCache
  | noStore => cacheControl.noStore
  | noTransform => cacheControl.noTransform
  | onlyIfCached => cacheControl.onlyIfCached
  | isPublic => cacheControl.isPublic
  | isPrivate => cacheControl.isPrivate

def set (builder : CacheControl) : BooleanDirective → CacheControl
  | mustRevalidate => { builder with mustRevalidate := true }
  | noCache => { builder with noCache := true }
  | noStore => { builder with noStore := true }
  | noTransform => { builder with noTransform := true }
  | onlyIfCached => { builder with onlyIfCached := true }
  | isPublic => { builder with isPublic := true }
  | isPrivate => { builder with isPrivate := true }

end BooleanDirective

section
variable {b : CacheControl} {n m : NumericDirective} {f g : BooleanDirective}

/-- A number is set for its own directive only. -/
theorem number_setNumber (v : Int64) : n.get (m.set b v) = if m = n then v else n.get b := by
  cases n <;> cases m <;> rfl

theorem number_setBoolean : n.get (f.set b) = n.get b := by
  cases n <;> cases f <;> rfl

theorem says_setNumber (v : Int64) : f.get (n.set b v) = f.get b := by
  cases f <;> cases n <;> rfl

/-- What was said before stays said. -/
theorem says_setBoolean : f.get (g.set b) = (f.get b || g = f) := by
  cases f <;> cases g <;> simp [BooleanDirective.get, BooleanDirective.set]

/-- Two directives differ by more than case. -/
theorem numericName_injective (h : icompare n.name m.name = true) : n = m := by
  revert h
  cases n <;> cases m <;> decide

theorem booleanName_injective (h : icompare f.name g.name = true) : f = g := by
  revert h
  cases f <;> cases g <;> decide

/-- No directive carries a number and is one that does not. -/
theorem icompare_names : icompare n.name f.name = false := by
  cases n <;> cases f <;> decide

/-- The chain of comparisons finds one directive at most. -/
theorem applyDirective_cases (poco : Poco) (b : CacheControl) (directive parameter : List Char) :
    (∃ n : NumericDirective, icompare (String.ofList directive) n.name = true ∧
      applyDirective poco b directive parameter = n.set b (parseNumber poco parameter (-1))) ∨
    (∃ f : BooleanDirective, icompare (String.ofList directive) f.name = true ∧
      applyDirective poco b directive parameter = f.set b) ∨
    ((∀ n : NumericDirective, icompare (String.ofList directive) n.name = false) ∧
      (∀ f : BooleanDirective, icompare (String.ofList directive) f.name = false) ∧
        applyDirective poco b directive parameter = b) := by
  obtain ⟨after, hafter⟩ : ∃ after, applyDirective poco b directive parameter = after := ⟨_, rfl⟩
  rw [hafter]
  unfold applyDirective at hafter
  extract_lets same number at hafter
  show (∃ n : NumericDirective, same n.name = true ∧ after = n.set b number) ∨
    (∃ f : BooleanDirective, same f.name = true ∧ after = f.set b) ∨
    ((∀ n : NumericDirective, same n.name = false) ∧
      (∀ f : BooleanDirective, same f.name = false) ∧ after = b)
  clear_value same number
  by_cases hmaxAge : same CacheDirectives.MaxAge = true
  · exact .inl ⟨.maxAge, hmaxAge, hafter.symm.trans (if_pos hmaxAge)⟩
  rw [if_neg hmaxAge] at hafter
  by_cases hsMaxAge : same CacheDirectives.SMaxAge = true
  · exact .inl ⟨.sMaxAge, hsMaxAge, hafter.symm.trans (if_pos hsMaxAge)⟩
  rw [if_neg hsMaxAge] at hafter
  by_cases hmaxStale : same CacheDirectives.MaxStale = true
  · exact .inl ⟨.maxStale, hmaxStale, hafter.symm.trans (if_pos hmaxStale)⟩
  rw [if_neg hmaxStale] at hafter
  by_cases hminFresh : same CacheDirectives.MinFresh = true
  · exact .inl ⟨.minFresh, hminFresh, hafter.symm.trans (if_pos hminFresh)⟩
  rw [if_neg hminFresh] at hafter
  by_cases hmustRevalidate : same CacheDirectives.MustRevalidate = true
  · exact .inr (.inl ⟨.mustRevalidate, hmustRevalidate, hafter.symm.trans (if_pos hmustRevalidate)⟩)
  rw [if_neg hmustRevalidate] at hafter
  by_cases hnoCache : same CacheDirectives.NoCache = true
  · exact .inr (.inl ⟨.noCache, hnoCache, hafter.symm.trans (if_pos hnoCache)⟩)
  rw [if_neg hnoCache] at hafter
  by_cases hnoStore : same CacheDirectives.NoStore = true
  · exact .inr (.inl ⟨.noStore, hnoStore, hafter.symm.trans (if_pos hnoStore)⟩)
  rw [if_neg hnoStore] at hafter
  by_cases hnoTransform : same CacheDirectives.NoTransform = true
  · exact .inr (.inl ⟨.noTransform, hnoTransform, hafter.symm.trans (if_pos hnoTransform)⟩)
  rw [if_neg hnoTransform] at hafter
  by_cases honlyIfCached : same CacheDirectives.OnlyIfCached = true
  · exact .inr (.inl ⟨.onlyIfCached, honlyIfCached, hafter.symm.trans (if_pos honlyIfCached)⟩)
  rw [if_neg honlyIfCached] at hafter
  by_cases hisPublic : same CacheDirectives.Public = true
  · exact .inr (.inl ⟨.isPublic, hisPublic, hafter.symm.trans (if_pos hisPublic)⟩)
  rw [if_neg hisPublic] at hafter
  by_cases hisPrivate : same CacheDirectives.Private = true
  · exact .inr (.inl ⟨.isPrivate, hisPrivate, hafter.symm.trans (if_pos hisPrivate)⟩)
  rw [if_neg hisPrivate] at hafter
  refine .inr (.inr ⟨fun n => ?_, fun f => ?_, hafter.symm⟩)
  · cases n <;> exact eq_false_of_ne_true (by assumption)
  · cases f <;> exact eq_false_of_ne_true (by assumption)

/-- A text compares equal to one name at most. -/
theorem icompare_other {s name other : String} (h : icompare s name = true)
    (hother : icompare name other = false) : icompare s other = false := by
  unfold icompare at h hother ⊢
  rw [of_decide_eq_true h]
  exact hother

/-- A directive with a number replaces what was there. -/
theorem number_applyDirective (n : NumericDirective) (b : CacheControl)
    (directive parameter : List Char) :
    n.get (applyDirective poco b directive parameter) =
      if icompare (String.ofList directive) n.name = true then parseNumber poco parameter (-1)
      else n.get b := by
  obtain ⟨m, hm, hafter⟩ | ⟨f, hf, hafter⟩ | ⟨hn, -, hafter⟩ :=
    applyDirective_cases poco b directive parameter
  · rw [hafter, number_setNumber]
    by_cases heq : m = n
    · rw [if_pos heq, if_pos (heq ▸ hm)]
    · have hne : icompare m.name n.name = false :=
        eq_false_of_ne_true fun h => heq (numericName_injective h)
      rw [if_neg heq, icompare_other hm hne, if_neg Bool.false_ne_true]
  · have hne : icompare f.name n.name = false := by
      cases n <;> cases f <;> decide
    rw [hafter, number_setBoolean, icompare_other hf hne, if_neg Bool.false_ne_true]
  · rw [hafter, hn, if_neg Bool.false_ne_true]

/-- A directive without one is added to what was there. -/
theorem says_applyDirective (f : BooleanDirective) (b : CacheControl)
    (directive parameter : List Char) :
    f.get (applyDirective poco b directive parameter) =
      (f.get b || icompare (String.ofList directive) f.name) := by
  obtain ⟨n, hn, hafter⟩ | ⟨g, hg, hafter⟩ | ⟨-, hf, hafter⟩ :=
    applyDirective_cases poco b directive parameter
  · rw [hafter, says_setNumber, icompare_other hn icompare_names, Bool.or_false]
  · rw [hafter, says_setBoolean]
    by_cases heq : g = f
    · rw [decide_eq_true heq, ← heq, hg]
    · have hne : icompare g.name f.name = false :=
        eq_false_of_ne_true fun h => heq (booleanName_injective h)
      rw [decide_eq_false heq, icompare_other hg hne]
  · rw [hafter, hf, Bool.or_false]

/-- Directives with their parameters, one after the other. -/
def applyAll (poco : Poco) (builder : CacheControl) (directives : List (List Char × List Char)) :
    CacheControl :=
  directives.foldl (fun b d => applyDirective poco b d.1 d.2) builder

/-- The last of a numeric directive counts. -/
theorem number_applyAll (n : NumericDirective) (b : CacheControl)
    (directives : List (List Char × List Char)) :
    n.get (applyAll poco b directives) =
      ((directives.filter fun d => icompare (String.ofList d.1) n.name).getLast?.map
        fun d => parseNumber poco d.2 (-1)).getD (n.get b) := by
  induction directives generalizing b with
  | nil => rfl
  | cons d directives ih =>
    have hrest : applyAll poco b (d :: directives) =
      applyAll poco (applyDirective poco b d.1 d.2) directives := rfl
    rw [hrest, ih, number_applyDirective, List.filter_cons]
    by_cases hd : icompare (String.ofList d.1) n.name = true
    · rw [if_pos hd, if_pos hd, List.getLast?_cons]
      cases (directives.filter fun d => icompare (String.ofList d.1) n.name).getLast? <;> rfl
    · rw [if_neg hd, if_neg hd]

/-- Any of the other directives counts. -/
theorem says_applyAll (f : BooleanDirective) (b : CacheControl)
    (directives : List (List Char × List Char)) :
    f.get (applyAll poco b directives) =
      (f.get b || directives.any fun d => icompare (String.ofList d.1) f.name) := by
  induction directives generalizing b with
  | nil => exact (Bool.or_false _).symm
  | cons d directives ih =>
    have hrest : applyAll poco b (d :: directives) =
      applyAll poco (applyDirective poco b d.1 d.2) directives := rfl
    rw [hrest, ih, says_applyDirective, List.any_cons, Bool.or_assoc]

/-- A `CacheControl` is what it says. -/
theorem ext_directives {c : CacheControl} (hn : ∀ n : NumericDirective, n.get b = n.get c)
    (hf : ∀ f : BooleanDirective, f.get b = f.get c) : b = c := by
  cases b
  cases c
  congr
  · exact hn .maxAge
  · exact hn .maxStale
  · exact hn .minFresh
  · exact hn .sMaxAge
  · exact hf .mustRevalidate
  · exact hf .noCache
  · exact hf .noStore
  · exact hf .noTransform
  · exact hf .onlyIfCached
  · exact hf .isPublic
  · exact hf .isPrivate

/-- With the `no-cache` of `Pragma`. -/
def orNoCache (cacheControl : CacheControl) (pragma : Bool) : CacheControl :=
  { cacheControl with noCache := cacheControl.noCache || pragma }

theorem number_orNoCache (n : NumericDirective) (pragma : Bool) :
    n.get (b.orNoCache pragma) = n.get b := by
  cases n <;> rfl

/-- `Pragma: no-cache` says `no-cache`. -/
theorem says_orNoCache (f : BooleanDirective) (pragma : Bool) :
    f.get (b.orNoCache pragma) = (f.get b || (f = .noCache && pragma)) := by
  cases f <;> simp [BooleanDirective.get, orNoCache]

theorem orNoCache_false (b : CacheControl) : b.orNoCache false = b := by
  unfold orNoCache
  rw [Bool.or_false]

/-- It does not matter how often it says so. -/
theorem orNoCache_orNoCache (p q : Bool) : (b.orNoCache p).orNoCache q = b.orNoCache (p || q) := by
  unfold orNoCache
  simp only [Bool.or_assoc]

/-- Where `Pragma` stands among the headers does not matter. -/
theorem applyAll_orNoCache (pragma : Bool) (directives : List (List Char × List Char)) :
    applyAll poco (b.orNoCache pragma) directives =
      (applyAll poco b directives).orNoCache pragma := by
  apply ext_directives
  · intro n
    rw [number_orNoCache, number_applyAll, number_applyAll, number_orNoCache]
  · intro f
    rw [says_orNoCache, says_applyAll, says_applyAll, says_orNoCache, Bool.or_right_comm]

end

/-! ## What a header list says -/

/-- The directive in a text with its parameter; none where there are several. -/
def directiveOf (text : List Char) : Option (List Char × List Char) :=
  match tokens '=' text with
  | [directive] => some (directive, [])
  | [directive, parameter] => some (directive, unquote parameter)
  | _ => none

/-- The texts of the directives in all values of `Cache-Control`, in order. -/
def texts (items : List (String × String)) : List (List Char) :=
  (values lower (lower HeaderNames.CacheControl) items).flatMap fun value => tokens ',' value.toList

/-- Whether a value of `Pragma` is `no-cache`. -/
def pragmaNoCache (items : List (String × String)) : Bool :=
  (values lower (lower HeaderNames.Pragma) items).any fun value =>
    icompare value CacheDirectives.NoCache

/-- A text without a name before its equals sign is refused, any other is at most one directive. -/
theorem parseDirective_eq (b : CacheControl) (text : List Char) :
    parseDirective poco b text = if tokens '=' text ≠ [] then
      .ok (applyAll poco b (directiveOf text).toList) else .error (.poco "Out of range") := by
  unfold parseDirective directiveOf
  rcases tokens '=' text with _ | ⟨directive, _ | ⟨parameter, _ | ⟨next, rest⟩⟩⟩
  · rw [if_neg (by simp)]
  · rw [if_pos (by simp)]
    rfl
  · rw [if_pos (by simp)]
    rfl
  · rw [if_pos (by simp)]
    rfl

/-- Directives are applied from left to right. -/
theorem applyAll_append (b : CacheControl) (ds ds' : List (List Char × List Char)) :
    applyAll poco b (ds ++ ds') = applyAll poco (applyAll poco b ds) ds' := by
  unfold applyAll
  rw [List.foldl_append]

/-- Texts are applied one after the other. -/
theorem foldl_directiveOf (b : CacheControl) (texts : List (List Char)) :
    texts.foldl (fun b text => applyAll poco b (directiveOf text).toList) b =
      applyAll poco b (texts.filterMap directiveOf) := by
  induction texts generalizing b with
  | nil => rfl
  | cons text texts ih =>
    rw [List.foldl_cons, ih, ← applyAll_append, List.filterMap_cons]
    cases directiveOf text <;> rfl

/-- The directives of several texts. -/
theorem foldlM_parseDirective (b : CacheControl) (texts : List (List Char)) :
    texts.foldlM (parseDirective poco) b = if ∀ text ∈ texts, tokens '=' text ≠ [] then
      .ok (applyAll poco b (texts.filterMap directiveOf)) else .error (.poco "Out of range") := by
  rw [foldlM_guard parseDirective_eq, foldl_directiveOf]

theorem texts_cons (item : String × String) (items : List (String × String)) :
    texts (item :: items) = texts [item] ++ texts items := by
  unfold texts
  rw [ListMap.values_cons, ListMap.values_cons]
  by_cases h : lower item.1 = lower HeaderNames.CacheControl
  · rw [if_pos h, if_pos h]
    simp
  · rw [if_neg h, if_neg h]
    rfl

theorem pragmaNoCache_cons (item : String × String) (items : List (String × String)) :
    pragmaNoCache (item :: items) = (pragmaNoCache [item] || pragmaNoCache items) := by
  unfold pragmaNoCache
  rw [ListMap.values_cons, ListMap.values_cons]
  by_cases h : lower item.1 = lower HeaderNames.Pragma
  · rw [if_pos h, if_pos h]
    simp
  · rw [if_neg h, if_neg h]
    rfl

/-- One header line is read for its own directives. -/
theorem parseHeader_eq (b : CacheControl) (item : String × String) :
    parseHeader poco b item = if ∀ text ∈ texts [item], tokens '=' text ≠ [] then
      .ok ((applyAll poco b ((texts [item]).filterMap directiveOf)).orNoCache
        (pragmaNoCache [item]))
      else .error (.poco "Out of range") := by
  have hnames : lower HeaderNames.Pragma ≠ lower HeaderNames.CacheControl := by decide
  have htexts : lower item.1 ≠ lower HeaderNames.CacheControl → texts [item] = [] := fun h => by
    unfold texts
    rw [ListMap.values_cons, if_neg h]
    rfl
  have hpragmas : lower item.1 ≠ lower HeaderNames.Pragma → pragmaNoCache [item] = false :=
    fun h => by
      unfold pragmaNoCache
      rw [ListMap.values_cons, if_neg h]
      rfl
  have hnil : ∀ text ∈ ([] : List (List Char)), tokens '=' text ≠ [] := List.forall_mem_nil _
  unfold parseHeader icompare
  by_cases hpragma : lower item.1 = lower HeaderNames.Pragma
  · have hleft : pragmaNoCache [item] = icompare item.2 CacheDirectives.NoCache := by
      unfold pragmaNoCache
      rw [ListMap.values_cons, if_pos hpragma]
      exact Bool.or_false _
    rw [if_pos (decide_eq_true hpragma), htexts (hpragma ▸ hnames), hleft, if_pos hnil]
    unfold icompare orNoCache
    by_cases hvalue : lower item.2 = lower CacheDirectives.NoCache
    · rw [if_pos (decide_eq_true hvalue), decide_eq_true hvalue, Bool.or_true]
      rfl
    · rw [if_neg (decide_eq_true_iff.not.mpr hvalue), decide_eq_false hvalue, Bool.or_false]
      rfl
  · rw [if_neg (decide_eq_true_iff.not.mpr hpragma), hpragmas hpragma]
    by_cases hcontrol : lower item.1 = lower HeaderNames.CacheControl
    · have htokens : texts [item] = tokens ',' item.2.toList := by
        unfold texts
        rw [ListMap.values_cons, if_pos hcontrol]
        exact List.append_nil _
      rw [if_pos (decide_eq_true hcontrol), foldlM_parseDirective, htokens,
        orNoCache_false]
    · rw [if_neg (decide_eq_true_iff.not.mpr hcontrol), htexts hcontrol, if_pos hnil]
      exact congrArg Except.ok (orNoCache_false _).symm

/-- Headers one after the other are their directives one after the other; all that counts of
`Pragma` is whether it is there. -/
theorem foldl_parseHeader (b : CacheControl) (items : List (String × String)) :
    items.foldl (fun b item => (applyAll poco b ((texts [item]).filterMap directiveOf)).orNoCache
      (pragmaNoCache [item])) b =
    (applyAll poco b ((texts items).filterMap directiveOf)).orNoCache (pragmaNoCache items) := by
  induction items generalizing b with
  | nil => exact (orNoCache_false b).symm
  | cons item items ih =>
    rw [List.foldl_cons, ih, applyAll_orNoCache, orNoCache_orNoCache, texts_cons item items,
      pragmaNoCache_cons item items, List.filterMap_append, applyAll_append]

/-- The result of `createFromHeaders` in terms of what the headers say. -/
theorem createFromHeaders_eq (headers : Headers) :
    createFromHeaders poco (some headers) =
      if ∀ text ∈ texts headers.items, tokens '=' text ≠ [] then
        .ok ((applyAll poco {} ((texts headers.items).filterMap directiveOf)).orNoCache
          (pragmaNoCache headers.items))
      else .error (.poco "Out of range") := by
  have hall : ∀ items : List (String × String),
      (∀ item ∈ items, ∀ text ∈ texts [item], tokens '=' text ≠ []) ↔
        ∀ text ∈ texts items, tokens '=' text ≠ [] := by
    intro items
    induction items with
    | nil => exact ⟨nofun, nofun⟩
    | cons item items ih =>
      rw [List.forall_mem_cons, texts_cons item items, List.forall_mem_append, ih]
  show headers.items.foldlM (parseHeader poco) {} = _
  rw [foldlM_guard parseHeader_eq, foldl_parseHeader]
  simp only [hall]

/-- All that `createFromHeaders` reads. -/
theorem createFromHeaders_ok {headers : Headers} {c : CacheControl} :
    createFromHeaders poco (some headers) = .ok c ↔
      (∀ text ∈ texts headers.items, tokens '=' text ≠ []) ∧
        c = (applyAll poco {} ((texts headers.items).filterMap directiveOf)).orNoCache
          (pragmaNoCache headers.items) := by
  rw [createFromHeaders_eq]
  by_cases hwell : ∀ text ∈ texts headers.items, tokens '=' text ≠ []
  · rw [if_pos hwell, and_iff_right hwell, Except.ok.injEq]
    exact eq_comm
  · rw [if_neg hwell]
    simp only [hwell, reduceCtorEq, false_and]

/-! ## Headers that cannot be read -/

/-- A piece between two commas that holds nothing but equal signs, and at least one. -/
def OnlyEqualSigns (piece : List Char) : Prop :=
  '=' ∈ piece ∧ ∀ c ∈ piece, c = '=' ∨ isSpace c = true

theorem mem_trim {cs : List Char} {c : Char} (h : isSpace c = false) : c ∈ trim cs ↔ c ∈ cs := by
  have hdrop : ∀ l : List Char, c ∈ l.dropWhile isSpace ↔ c ∈ l := by
    intro l
    constructor
    · intro hc
      exact (List.dropWhile_sublist isSpace).subset hc
    · intro hc
      rw [← List.takeWhile_append_dropWhile (p := isSpace) (l := l)] at hc
      rcases List.mem_append.mp hc with hc | hc
      · rw [List.mem_takeWhile_imp hc] at h
        cases h
      · exact hc
  unfold trim
  rw [List.mem_reverse, hdrop, List.mem_reverse, hdrop]

/-- A piece with a token of which the second tokenizer makes none. -/
theorem onlyEqualSigns_iff {piece : List Char} :
    OnlyEqualSigns piece ↔ trim piece ≠ [] ∧ tokens '=' (trim piece) = [] := by
  have hchars : (∀ c ∈ trim piece, c = '=' ∨ isSpace c = true) ↔
      ∀ c ∈ piece, c = '=' ∨ isSpace c = true := by
    constructor
    · intro h c hc
      by_cases hspace : isSpace c = true
      · exact .inr hspace
      · exact h c ((mem_trim (eq_false_of_ne_true hspace)).mpr hc)
    · intro h c hc
      by_cases hspace : isSpace c = true
      · exact .inr hspace
      · exact h c ((mem_trim (eq_false_of_ne_true hspace)).mp hc)
  unfold OnlyEqualSigns
  rw [tokens_eq_nil_iff, hchars]
  refine and_congr_left fun h => ?_
  rw [Ne, trim_eq_nil_iff]
  constructor
  · intro hmem hall
    have hspace := hall '=' hmem
    cases hspace
  · intro hnot
    by_contra hmem
    refine hnot fun c hc => (h c hc).resolve_left fun heq => hmem (heq ▸ hc)

/-- The values of `Cache-Control` without such a piece are those with a token in each text. -/
theorem forall_texts_iff {items : List (String × String)} :
    (∀ text ∈ texts items, tokens '=' text ≠ []) ↔
      ∀ item ∈ items, lower item.1 = lower HeaderNames.CacheControl →
        ∀ piece ∈ item.2.toList.splitOn ',', ¬OnlyEqualSigns piece := by
  have htoken : ∀ value : String, (∀ text ∈ tokens ',' value.toList, tokens '=' text ≠ []) ↔
      ∀ piece ∈ value.toList.splitOn ',', ¬OnlyEqualSigns piece := by
    intro value
    rw [tokens]
    simp [onlyEqualSigns_iff]
  unfold texts values
  simp only [List.forall_mem_flatMap, htoken, List.forall_mem_map, List.mem_filter,
    decide_eq_true_eq, and_imp]

/-- It throws at a piece of equal signs in a `Cache-Control` header, and nowhere else. -/
theorem createFromHeaders_isOk_iff (headers : Option Headers) :
    (∃ c, createFromHeaders poco headers = .ok c) ↔
      ∀ h ∈ headers, ∀ value ∈ h.getValues HeaderNames.CacheControl,
        ∀ piece ∈ value.toList.splitOn ',', ¬OnlyEqualSigns piece := by
  cases headers with
  | none => simp [createFromHeaders]
  | some headers =>
    have hwell : (∃ c, createFromHeaders poco (some headers) = .ok c) ↔
        ∀ text ∈ texts headers.items, tokens '=' text ≠ [] := by
      simp only [createFromHeaders_ok, exists_and_left, exists_eq, and_true]
    rw [hwell, forall_texts_iff]
    unfold Headers.getValues values
    simp only [List.forall_mem_map, List.mem_filter, decide_eq_true_eq, and_imp,
      Option.mem_some_iff, forall_eq']

/-- A header of a single equal sign. -/
def equalSignHeaders : Headers where
  items := [(HeaderNames.CacheControl, "=")]
  grouped := by decide
  named := by decide

/-- A lone equals sign is refused. -/
theorem createFromHeaders_equalSign : createFromHeaders Poco.plain (some equalSignHeaders) =
    .error (.poco "Out of range") := by decide

/-! ## One line for several -/

/-- All `Cache-Control` lines replaced by one, wherever it stands. -/
structure Folds (headers folded : Headers) : Prop where
  values : folded.getValues HeaderNames.CacheControl =
    match headers.getValues HeaderNames.CacheControl with
    | [] => []
    | values => [String.ofList (List.intercalate [','] (values.map String.toList))]
  others : folded.items.filter (fun item => !icompare item.1 HeaderNames.CacheControl) =
    headers.items.filter fun item => !icompare item.1 HeaderNames.CacheControl

/-- The parameter of a numeric directive, if it is the one in a text. -/
def NumericDirective.parameterIn (n : NumericDirective) (text : List Char) : Option (List Char) :=
  match tokens '=' text with
  | [directive] => if icompare (String.ofList directive) n.name then some [] else none
  | [directive, parameter] =>
    if icompare (String.ofList directive) n.name then some parameter else none
  | _ => none

/-- Quotes around nothing are not nothing. -/
theorem unquote_eq_nil_iff {parameter : List Char} : unquote parameter = [] ↔ parameter = [] := by
  unfold unquote
  split
  · rename_i hquoted
    rw [Bool.and_eq_true, Bool.and_eq_true, decide_eq_true_eq] at hquoted
    have hlength := hquoted.1.1
    rw [← List.length_eq_zero_iff, ← List.length_eq_zero_iff, List.length_take, List.length_drop]
    omega
  · rfl

/-- No parameter, and one that is no number, are both -1. -/
theorem parseNumber_unquote (parameter : List Char) :
    parseNumber poco (unquote parameter) (-1) = if parameter = [] then -1
      else (poco.tryParse64 (String.ofList (unquote parameter))).getD (-1) := by
  unfold parseNumber
  simp only [unquote_eq_nil_iff]
  cases poco.tryParse64 (String.ofList (unquote parameter)) <;> rfl

/-- The parameter of a directive is looked up by its name. -/
theorem parameterIn_eq (n : NumericDirective) (text : List Char) :
    (n.parameterIn text).map unquote =
      ((directiveOf text).filter fun d => icompare (String.ofList d.1) n.name).map Prod.snd := by
  have hsingle : unquote [] = [] := by decide
  unfold NumericDirective.parameterIn directiveOf
  rcases tokens '=' text with _ | ⟨directive, _ | ⟨parameter, _ | ⟨next, rest⟩⟩⟩
  · rfl
  · show Option.map unquote
      (if icompare (String.ofList directive) n.name then some [] else none) = _
    rw [Option.filter_some]
    split
    · exact congrArg some hsingle
    · rfl
  · show Option.map unquote
      (if icompare (String.ofList directive) n.name then some parameter else none) = _
    rw [Option.filter_some]
    split <;> rfl
  · rfl

/-- The last occurrence with at most one parameter gives the number. -/
theorem number_createFromHeaders {headers : Headers} {c : CacheControl}
    (h : createFromHeaders poco (some headers) = .ok c) (n : NumericDirective) :
    n.get c = (((texts headers.items).filterMap n.parameterIn).getLast?.bind fun parameter =>
      if parameter = [] then none
      else poco.tryParse64 (String.ofList (unquote parameter))).getD (-1) := by
  obtain ⟨-, rfl⟩ := createFromHeaders_ok.mp h
  have habsent : n.get {} = -1 := by cases n <;> rfl
  have hdirectives : (((texts headers.items).filterMap directiveOf).filter fun d =>
      icompare (String.ofList d.1) n.name).map Prod.snd =
        ((texts headers.items).filterMap n.parameterIn).map unquote := by
    rw [List.filter_filterMap, List.map_filterMap, List.map_filterMap]
    exact congrArg (fun f => List.filterMap f _) (funext fun text => (parameterIn_eq n text).symm)
  have hsnd : ∀ l : List (List Char × List Char),
      (l.getLast?.map fun d => parseNumber poco d.2 (-1)) =
        (l.map Prod.snd).getLast?.map fun parameter => parseNumber poco parameter (-1) := by
    intro l
    rw [List.getLast?_map, Option.map_map]
    rfl
  rw [number_orNoCache, number_applyAll, habsent, hsnd, hdirectives, List.getLast?_map]
  cases ((texts headers.items).filterMap n.parameterIn).getLast? with
  | none => rfl
  | some parameter =>
    show parseNumber poco (unquote parameter) (-1) = _
    rw [parseNumber_unquote]
    show _ = (if parameter = [] then none else _).getD (-1)
    split <;> rfl

/-- Folding lines does not change the directives. -/
theorem texts_eq_of_folds {headers folded : Headers} (h : Folds headers folded) :
    texts folded.items = texts headers.items := by
  have hvalues := h.values
  unfold texts
  show (folded.getValues _).flatMap _ = (headers.getValues _).flatMap _
  rw [hvalues]
  cases hempty : headers.getValues HeaderNames.CacheControl with
  | nil => rfl
  | cons value values =>
    rw [List.flatMap_singleton, String.toList_ofList, tokens_intercalate, List.flatMap_map]

/-- Nor does it change the values of other headers. -/
theorem getValues_of_folds {headers folded : Headers} (h : Folds headers folded) {name : String}
    (hname : lower name ≠ lower HeaderNames.CacheControl) :
    folded.getValues name = headers.getValues name := by
  have hfilter : ∀ items : List (String × String), values lower (lower name) items =
      values lower (lower name)
        (items.filter fun item => !icompare item.1 HeaderNames.CacheControl) := by
    intro items
    unfold ListMap.values
    rw [List.filter_filter]
    congr 1
    refine List.filter_congr fun item _ => ?_
    unfold icompare
    by_cases heq : lower item.1 = lower name
    · simp [heq, hname]
    · simp [heq]
  unfold Headers.getValues
  rw [hfilter, h.others, ← hfilter]

/-- Headers that say the same in any order, in any number of lines: the same directives of each
header, and the same values of `Pragma`. -/
def SaysSame (headers headers' : Headers) : Prop :=
  (texts headers'.items).Perm (texts headers.items) ∧
    (headers'.getValues HeaderNames.Pragma).Perm (headers.getValues HeaderNames.Pragma)

/-- A directive without a number is said if it is said anywhere. -/
theorem says_createFromHeaders {headers : Headers} {c : CacheControl}
    (h : createFromHeaders poco (some headers) = .ok c) (f : BooleanDirective) :
    f.get c = (((texts headers.items).filterMap directiveOf).any
      (fun d => icompare (String.ofList d.1) f.name) ||
        (f = .noCache && pragmaNoCache headers.items)) := by
  have habsent : f.get {} = false := by cases f <;> rfl
  obtain ⟨-, rfl⟩ := createFromHeaders_ok.mp h
  rw [says_orNoCache, says_applyAll, habsent, Bool.false_or]

/-- There is one, whatever the headers. -/
theorem exists_folds (headers : Headers) : ∃ folded, Folds headers folded := by
  cases hvalues : headers.getValues HeaderNames.CacheControl with
  | nil => exact ⟨headers, by rw [hvalues], rfl⟩
  | cons value more =>
    obtain ⟨joined, hjoined⟩ : ∃ joined, joined =
      String.ofList (List.intercalate [','] ((value :: more).map String.toList)) := ⟨_, rfl⟩
    have hitems := headers.setItems_eq HeaderNames.CacheControl joined
    refine ⟨headers.setNamed HeaderNames.CacheControl joined (by decide), ?_, ?_⟩
    · rw [hvalues]
      show values lower _ (headers.setItems HeaderNames.CacheControl joined) = [String.ofList _]
      rw [hitems, ← hjoined]
      unfold ListMap.values
      rw [List.filter_append, List.filter_filter, List.filter_eq_nil_iff.mpr (by simp),
        List.nil_append, List.filter_cons_of_pos (by simp)]
      rfl
    · show (headers.setItems HeaderNames.CacheControl joined).filter _ = _
      rw [hitems, List.filter_append, List.filter_filter,
        List.filter_cons_of_neg (by simp [icompare]), List.filter_nil, List.append_nil]
      refine List.filter_congr fun item _ => ?_
      simp [icompare]

/-- Neither the lines of `Cache-Control` nor the order of the boolean directives matters, and of
a numeric directive the last occurrence with at most one parameter counts. -/
theorem createFromHeaders_folds {headers : Headers} {c : CacheControl}
    (h : createFromHeaders poco (some headers) = .ok c) :
    ((∃ folded, Folds headers folded) ∧
      ∀ folded, Folds headers folded → createFromHeaders poco (some folded) = .ok c) ∧
    (∀ headers', SaysSame headers headers' → ∃ c', createFromHeaders poco (some headers') = .ok c' ∧
      ∀ f : BooleanDirective, f.get c' = f.get c) ∧
    ∀ n : NumericDirective, n.get c =
      (((texts headers.items).filterMap n.parameterIn).getLast?.bind fun parameter =>
        if parameter = [] then none
        else poco.tryParse64 (String.ofList (unquote parameter))).getD (-1) := by
  have hread := createFromHeaders_ok.mp h
  refine ⟨⟨exists_folds headers, fun folded hfolds => ?_⟩, fun headers' hsame => ?_,
    number_createFromHeaders h⟩
  · have hpragma : pragmaNoCache folded.items = pragmaNoCache headers.items :=
      congrArg (List.any · _) (getValues_of_folds hfolds (by decide))
    rw [createFromHeaders_ok, texts_eq_of_folds hfolds, hpragma]
    exact hread
  · obtain ⟨htexts, hpragma⟩ := hsame
    have hwell : ∀ text ∈ texts headers'.items, tokens '=' text ≠ [] :=
      fun text htext => hread.1 text (htexts.subset htext)
    have hok : createFromHeaders poco (some headers') = .ok _ :=
      createFromHeaders_ok.mpr ⟨hwell, rfl⟩
    refine ⟨_, hok, fun f => ?_⟩
    rw [says_createFromHeaders hok, says_createFromHeaders h]
    have hany : pragmaNoCache headers'.items = pragmaNoCache headers.items := hpragma.any_eq
    rw [(htexts.filterMap directiveOf).any_eq, hany]

/-- Three lines, a bad and two good occurrences of `max-age`, and one line in their place. -/
def severalLines : Headers where
  items := [("cache-control", "max-age=12, NO-cache"), (HeaderNames.CacheControl, "max-age=a=b"),
    (HeaderNames.CacheControl, " , Max-Age=\"30\"")]
  grouped := by decide
  named := by decide

/-- The headers of `severalLines` in one line. -/
def oneLine : Headers where
  items := [(HeaderNames.CacheControl, "max-age=12, NO-cache,max-age=a=b, , Max-Age=\"30\"")]
  grouped := by decide
  named := by decide

theorem createFromHeaders_folds_severalLines :
    createFromHeaders Poco.plain (some oneLine) = .ok { maxAgeSec := 30, noCache := true } := by
  have hok : createFromHeaders Poco.plain (some severalLines) =
    .ok { maxAgeSec := 30, noCache := true } := by decide
  exact (createFromHeaders_folds hok).1.2 oneLine ⟨by decide, by decide⟩

/-! ## Headers that share values or items -/

/-- All directives but the one that `Pragma` can give. -/
def withoutNoCache (cacheControl : CacheControl) : CacheControl :=
  { cacheControl with noCache := false }

/-- Headers with the same values of `Cache-Control` give the same directives but for `no-cache`. -/
theorem createFromHeaders_congr {headers headers' : Headers} {c c' : CacheControl}
    (hvalues : headers'.getValues HeaderNames.CacheControl =
      headers.getValues HeaderNames.CacheControl)
    (h : createFromHeaders poco (some headers) = .ok c)
    (h' : createFromHeaders poco (some headers') = .ok c') :
    c'.withoutNoCache = c.withoutNoCache := by
  have htexts : texts headers'.items = texts headers.items :=
    congrArg (List.flatMap fun value : String => tokens ',' value.toList) hvalues
  obtain ⟨-, rfl⟩ := createFromHeaders_ok.mp h
  obtain ⟨-, rfl⟩ := createFromHeaders_ok.mp h'
  rw [htexts]
  rfl

/-- A text that is no `no-store` directive. -/
def LeavesNoStore (text : List Char) : Prop :=
  tokens '=' text ≠ [] ∧ ∀ d ∈ directiveOf text,
    icompare (String.ofList d.1) CacheDirectives.NoStore = false

/-- Headers leave storing allowed exactly if all their texts do. -/
theorem createFromHeaders_noStore_iff {headers : Headers} :
    (∃ c, createFromHeaders poco (some headers) = .ok c ∧ c.noStore = false) ↔
      ∀ text ∈ texts headers.items, LeavesNoStore text := by
  have hleft : ∀ {c}, createFromHeaders poco (some headers) = .ok c → (c.noStore = false ↔
      ∀ text ∈ texts headers.items, ∀ d ∈ directiveOf text,
        icompare (String.ofList d.1) CacheDirectives.NoStore = false) := by
    intro c hok
    have hget : c.noStore = (((texts headers.items).filterMap directiveOf).any fun d =>
        icompare (String.ofList d.1) CacheDirectives.NoStore) :=
      (says_createFromHeaders hok .noStore).trans (Bool.or_false _)
    rw [hget, List.any_eq_false]
    simp only [List.mem_filterMap, Bool.not_eq_true]
    constructor
    · intro hall text htext d hd
      exact hall d ⟨text, htext, hd⟩
    · rintro hall d ⟨text, htext, hd⟩
      exact hall text htext d hd
  constructor
  · rintro ⟨c, hok, hc⟩ text htext
    exact ⟨(createFromHeaders_ok.mp hok).1 text htext, (hleft hok).mp hc text htext⟩
  · intro hall
    have hok : createFromHeaders poco (some headers) = .ok _ :=
      createFromHeaders_ok.mpr ⟨fun text htext => (hall text htext).1, rfl⟩
    exact ⟨_, hok, (hleft hok).mpr fun text htext => (hall text htext).2⟩

/-- The texts between commas of all headers of this name. -/
theorem mem_texts {text : List Char} {items : List (String × String)} :
    text ∈ texts items ↔ ∃ item ∈ items, lower item.1 = lower HeaderNames.CacheControl ∧
      text ∈ tokens ',' item.2.toList := by
  unfold texts ListMap.values
  simp only [List.mem_flatMap, List.mem_map, List.mem_filter, decide_eq_true_eq]
  constructor
  · rintro ⟨_, ⟨item, ⟨hitem, hname⟩, rfl⟩, htext⟩
    exact ⟨item, hitem, hname, htext⟩
  · rintro ⟨item, hitem, hname, htext⟩
    exact ⟨_, ⟨item, ⟨hitem, hname⟩, rfl⟩, htext⟩

/-- Without `no-store` in two header lists, there is none in headers taken from both. -/
theorem createFromHeaders_of_append {headers headers' combined : Headers} {c c' : CacheControl}
    (h : createFromHeaders poco (some headers) = .ok c) (hc : c.noStore = false)
    (h' : createFromHeaders poco (some headers') = .ok c') (hc' : c'.noStore = false)
    (hsub : combined.items ⊆ headers.items ++ headers'.items) :
    ∃ d, createFromHeaders poco (some combined) = .ok d ∧ d.noStore = false := by
  rw [createFromHeaders_noStore_iff]
  intro text htext
  obtain ⟨item, hitem, hname, htoken⟩ := mem_texts.mp htext
  rcases List.mem_append.mp (hsub hitem) with hitem | hitem
  · exact createFromHeaders_noStore_iff.mp ⟨c, h, hc⟩ text
      (mem_texts.mpr ⟨item, hitem, hname, htoken⟩)
  · exact createFromHeaders_noStore_iff.mp ⟨c', h', hc'⟩ text
      (mem_texts.mpr ⟨item, hitem, hname, htoken⟩)

/-- Without `no-store` in the headers, any of them can be read alone. -/
theorem createFromHeaders_of_subset {headers headers' : Headers} {c : CacheControl}
    (h : createFromHeaders poco (some headers) = .ok c) (hc : c.noStore = false)
    (hsub : headers'.items ⊆ headers.items) :
    ∃ c', createFromHeaders poco (some headers') = .ok c' ∧ c'.noStore = false :=
  createFromHeaders_of_append h hc h hc fun _ he => List.mem_append_left _ (hsub he)

end EasyHttp.CacheControl
