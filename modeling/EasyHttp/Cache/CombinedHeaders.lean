import EasyHttp.Cache.HttpCacheStrategy
import EasyHttp.Library.Exec

/-!
# The headers that `combineCacheAndNetworkHeader` makes

The stored headers and those of the answer, under each name as the two filters of the function
keep them.

* `combined_perm`, `combined_named`: the items;
* `combined_getValues`: the values of a name, in order;
* `Merges`: the values that the function is for;
* `merges_iff`: it gives them unless a warning is in the way.
-/

namespace EasyHttp.HttpCacheStrategy

open HttpConstants Exec
open ListMap (values)

/-! ## The items -/

/-- The items of the combined headers. -/
theorem combined_perm {cacheResponse networkResponse : Response} {combined : Headers}
    (h : combineCacheAndNetworkHeader cacheResponse networkResponse = .ok combined) :
    combined.items.Perm (cacheResponse.headers.items.filter (keepsCached networkResponse) ++
      networkResponse.headers.items.filter keepsNetwork) := by
  obtain ⟨kept, hkept, hadd⟩ := exists_of_bind_ok h
  have hcached : kept.items.Perm
      (cacheResponse.headers.items.filter (keepsCached networkResponse)) :=
    (Headers.addAll_perm hkept).trans (List.Perm.of_eq (List.nil_append _))
  exact (Headers.addAll_perm hadd).trans (hcached.append_right _)

/-- Of a stored item only the name counts, and of a warning what stands behind its first
character. -/
theorem keepsCached_of_lower {networkResponse : Response} {item : String × String} {name : String}
    (h : lower item.1 = lower name) :
    keepsCached networkResponse item =
      (!(icompare name HeaderNames.Warning && icompareFrom item.2 1 "1") &&
        (icompare name HeaderNames.ContentLength || !isEndToEnd name ||
          !networkResponse.hasHeader name)) := by
  have hhas : networkResponse.hasHeader item.1 = networkResponse.hasHeader name := by
    unfold Response.hasHeader
    rw [Headers.has_eq, Headers.has_eq, Headers.getValues, Headers.getValues, h]
  have hsame : ∀ other, icompare item.1 other = icompare name other := fun other => by
    unfold icompare
    rw [h]
  have hend : isEndToEnd item.1 = isEndToEnd name := by
    unfold isEndToEnd
    simp only [hsame]
  have hcases : ∀ warning length endToEnd has : Bool,
      (if warning = true then false else if length = true then true else !endToEnd || !has) =
        (!warning && (length || !endToEnd || !has)) := by decide
  unfold keepsCached
  rw [hhas, hend, hsame, hsame]
  exact hcases _ _ _ _

/-- Only the name decides. -/
theorem keepsNetwork_of_lower {item : String × String} {name : String}
    (h : lower item.1 = lower name) :
    keepsNetwork item = (!icompare name HeaderNames.ContentLength && isEndToEnd name) := by
  unfold keepsNetwork isEndToEnd icompare
  rw [h]

/-- The items of one name among the combined headers. -/
theorem combined_named {cacheResponse networkResponse : Response} {combined : Headers}
    (h : combineCacheAndNetworkHeader cacheResponse networkResponse = .ok combined) {name : String}
    (hwarning : lower name ≠ lower HeaderNames.Warning) :
    (combined.items.filter fun e => lower e.1 = lower name).Perm
      ((if icompare name HeaderNames.ContentLength ||
          (!isEndToEnd name || !networkResponse.hasHeader name) then
        cacheResponse.headers.items.filter fun e => lower e.1 = lower name else []) ++
      (if !icompare name HeaderNames.ContentLength && isEndToEnd name then
        networkResponse.headers.items.filter fun e => lower e.1 = lower name else [])) := by
  have hfilter : ∀ (l : List (String × String)) (p : String × String → Bool) (b : Bool),
      (∀ e, lower e.1 = lower name → p e = b) →
      (l.filter p).filter (fun e => lower e.1 = lower name) =
        if b then l.filter fun e => lower e.1 = lower name else [] := by
    intro l p b hp
    rw [List.filter_filter]
    have hsame : l.filter (fun e => decide (lower e.1 = lower name) && p e) =
        l.filter fun e => decide (lower e.1 = lower name) && b := by
      refine List.filter_congr fun e _ => ?_
      by_cases hname : lower e.1 = lower name
      · rw [hp e hname]
      · rw [decide_eq_false hname, Bool.false_and, Bool.false_and]
    rw [hsame]
    cases b <;> simp
  refine ((combined_perm h).filter _).trans (List.Perm.of_eq ?_)
  have hnot : icompare name HeaderNames.Warning = false := decide_eq_false hwarning
  rw [List.filter_append, hfilter _ _ _ fun e he => keepsNetwork_of_lower he,
    hfilter _ _ (icompare name HeaderNames.ContentLength ||
      (!isEndToEnd name || !networkResponse.hasHeader name))]
  intro e he
  rw [keepsCached_of_lower he, hnot, Bool.false_and, Bool.not_false, Bool.true_and, Bool.or_assoc]

/-- The stored `Content-Length` is kept, and no other is taken. -/
theorem combined_contentLength {cacheResponse networkResponse : Response} {combined : Headers}
    (h : combineCacheAndNetworkHeader cacheResponse networkResponse = .ok combined) :
    (combined.items.filter fun e => lower e.1 = lower HeaderNames.ContentLength).Perm
    (cacheResponse.headers.items.filter fun e => lower e.1 = lower HeaderNames.ContentLength) := by
  have hitems := combined_named h
    (by decide : lower HeaderNames.ContentLength ≠ lower HeaderNames.Warning)
  have hlength : icompare HeaderNames.ContentLength HeaderNames.ContentLength = true := by decide
  rw [hlength, Bool.true_or, if_pos rfl, Bool.not_true, Bool.false_and, if_neg Bool.false_ne_true,
    List.append_nil] at hitems
  exact hitems

/-! ## The values -/

/-- A warning that the filter drops. -/
def dropsWarning (name value : String) : Bool :=
  icompare name HeaderNames.Warning && icompareFrom value 1 "1"

/-- The values of a name that two filters leave. -/
def combinedValues (cacheResponse networkResponse : Response) (name : String) : List String :=
  (if icompare name HeaderNames.ContentLength || !isEndToEnd name ||
      !networkResponse.hasHeader name then
    (cacheResponse.headers.getValues name).filter fun value => !dropsWarning name value else []) ++
  (if !icompare name HeaderNames.ContentLength && isEndToEnd name then
    networkResponse.headers.getValues name else [])

/-- Of the values of one name, a filter on items is a filter on values. -/
theorem values_filter {l : List (String × String)} {p : String × String → Bool}
    {q : String → Bool} {b : Bool} {name : String}
    (hp : ∀ e, lower e.1 = lower name → p e = (q e.2 && b)) :
    values lower (lower name) (l.filter p) =
      if b then (values lower (lower name) l).filter q else [] := by
  induction l with
  | nil => cases b <;> rfl
  | cons e l ih =>
    rw [ListMap.values_cons]
    by_cases hname : lower e.1 = lower name
    · rw [List.filter_cons, hp e hname, if_pos hname]
      cases b
      · rw [Bool.and_false, if_neg Bool.false_ne_true]
        exact ih
      · rw [Bool.and_true, if_pos rfl, List.filter_cons]
        rw [if_pos rfl] at ih
        by_cases hq : q e.2 = true
        · rw [if_pos hq, if_pos hq, ListMap.values_cons, if_pos hname, ih]
        · rw [if_neg hq, if_neg hq, ih]
    · rw [if_neg hname, ← ih, List.filter_cons]
      split
      · rw [ListMap.values_cons, if_neg hname]
      · rfl

/-- The values of the combined headers, which can always be made. -/
theorem combined_getValues (cacheResponse networkResponse : Response) :
    ∃ combined, combineCacheAndNetworkHeader cacheResponse networkResponse = .ok combined ∧
      ∀ name, combined.getValues name = combinedValues cacheResponse networkResponse name := by
  have hcached : ∀ e ∈ cacheResponse.headers.items.filter (keepsCached networkResponse),
      e.1 ≠ "" := fun e he => cacheResponse.headers.named e (List.mem_filter.mp he).1
  have hnetwork : ∀ e ∈ networkResponse.headers.items.filter keepsNetwork, e.1 ≠ "" :=
    fun e he => networkResponse.headers.named e (List.mem_filter.mp he).1
  obtain ⟨kept, hkept, hkeptItems⟩ := Headers.addAll_of_named hcached Headers.empty
  obtain ⟨combined, hadd, hitems⟩ := Headers.addAll_of_named hnetwork kept
  refine ⟨combined, ?_, fun name => ?_⟩
  · unfold combineCacheAndNetworkHeader
    rw [hkept]
    exact hadd
  · have hfirst : values lower (lower name) kept.items = _ ++ _ :=
      hkeptItems ▸ ListMap.values_foldl_insert lower (lower name) Headers.empty.grouped _
    unfold Headers.getValues combinedValues
    rw [hitems, ListMap.values_foldl_insert lower (lower name) kept.grouped, hfirst]
    rw [values_filter (q := fun value => !dropsWarning name value) fun e he =>
        keepsCached_of_lower he,
      values_filter (q := fun _ => true) fun e he => by
        rw [keepsNetwork_of_lower he, Bool.true_and], List.filter_true]
    rfl

/-- The headers kept for their name are no warnings. -/
theorem notWarning_of_kept {name : String}
    (h : (icompare name HeaderNames.ContentLength || !isEndToEnd name) = true) :
    icompare name HeaderNames.Warning = false := by
  by_contra hwarning
  have hlower : lower name = lower HeaderNames.Warning :=
    of_decide_eq_true (eq_true_of_ne_false hwarning)
  unfold isEndToEnd icompare at h
  rw [hlower] at h
  revert h
  decide

/-- Of three kinds of names each takes its values from one place. -/
theorem combinedValues_eq (cacheResponse networkResponse : Response) (name : String) :
    combinedValues cacheResponse networkResponse name =
      if icompare name HeaderNames.ContentLength || !isEndToEnd name then
        cacheResponse.headers.getValues name
      else if networkResponse.hasHeader name then networkResponse.headers.getValues name
      else (cacheResponse.headers.getValues name).filter fun value =>
        !dropsWarning name value := by
  unfold combinedValues
  by_cases hkept : (icompare name HeaderNames.ContentLength || !isEndToEnd name) = true
  · have hnetwork : (!icompare name HeaderNames.ContentLength && isEndToEnd name) = false := by
      rw [← Bool.not_not (isEndToEnd name), ← Bool.not_or, hkept]
      rfl
    rw [hkept, hnetwork, Bool.true_or, if_pos rfl, if_pos rfl, if_neg Bool.false_ne_true,
      List.append_nil, List.filter_eq_self]
    intro value _
    unfold dropsWarning
    rw [notWarning_of_kept hkept]
    rfl
  · have hkept := eq_false_of_ne_true hkept
    have hnetwork : (!icompare name HeaderNames.ContentLength && isEndToEnd name) = true := by
      rw [← Bool.not_not (isEndToEnd name), ← Bool.not_or, hkept]
      rfl
    rw [hkept, hnetwork, Bool.false_or, if_pos rfl, if_neg Bool.false_ne_true]
    by_cases hhas : networkResponse.hasHeader name = true
    · rw [hhas]
      rfl
    · have hnone : networkResponse.headers.getValues name = [] := by
        have hhas : networkResponse.headers.has name = false := eq_false_of_ne_true hhas
        rw [Headers.has_eq, Option.isSome_eq_false_iff, Option.isNone_iff_eq_none,
          List.head?_eq_none_iff] at hhas
        exact hhas
      rw [if_neg hhas, eq_false_of_ne_true hhas, Bool.not_false, if_pos rfl, hnone,
        List.append_nil]

theorem getValues_congr {name other : String} (h : lower name = lower other)
    (headers : Headers) : headers.getValues name = headers.getValues other := by
  unfold Headers.getValues
  rw [h]

/-- The values that a name is to have in the combined headers. -/
def mergedValues (cacheResponse networkResponse : Response) (name : String) : List String :=
  if icompare name HeaderNames.ContentLength || !isEndToEnd name then
    cacheResponse.headers.getValues name
  else if networkResponse.hasHeader name then networkResponse.headers.getValues name
  else (cacheResponse.headers.getValues name).filter fun value =>
    !(icompare name HeaderNames.Warning && value.toList.head? = some '1')

/-- The combined headers have just these values, also when they are combined again. -/
def Merges (cacheResponse networkResponse : Response) : Prop :=
  ∃ combined, combineCacheAndNetworkHeader cacheResponse networkResponse = .ok combined ∧
    (∀ name, combined.getValues name = mergedValues cacheResponse networkResponse name) ∧
    ∃ again, combineCacheAndNetworkHeader { cacheResponse with headers := combined }
        networkResponse = .ok again ∧
      ∀ name, again.getValues name = combined.getValues name

/-- Combining once more changes nothing. -/
theorem combinedValues_again {cacheResponse networkResponse : Response} {combined : Headers}
    (h : ∀ name, combined.getValues name = combinedValues cacheResponse networkResponse name)
    (name : String) :
    combinedValues { cacheResponse with headers := combined } networkResponse name =
      combined.getValues name := by
  rw [combinedValues_eq]
  by_cases hkept : (icompare name HeaderNames.ContentLength || !isEndToEnd name) = true
  · rw [if_pos hkept]
  · rw [if_neg hkept, h, combinedValues_eq, if_neg hkept]
    by_cases hhas : networkResponse.hasHeader name = true
    · rw [if_pos hhas, if_pos hhas]
    · rw [if_neg hhas, if_neg hhas, List.filter_filter]
      simp only [Bool.and_self]

/-- No warning makes a difference: one of the answer takes the place of all stored ones, or the
part of each behind the first character is `1` just when the first character is. -/
def WarningsFit (cacheResponse networkResponse : Response) : Prop :=
  networkResponse.hasHeader HeaderNames.Warning = true ∨
    ∀ value ∈ cacheResponse.headers.getValues HeaderNames.Warning,
      value.toList.head? = some '1' ↔ value.toList.drop 1 = ['1']

/-- A digit has no case. -/
theorem toLower_eq_one_iff {c : Char} : c.toLower = '1' ↔ c = '1' := by
  constructor
  · intro h
    unfold Char.toLower at h
    split at h
    · rename_i hupper
      have hcode := congrArg UInt32.toNat (congrArg Char.val h)
      have hl : 65 ≤ c.toNat := hupper.1
      have hu : c.toNat ≤ 90 := hupper.2
      simp [UInt32.toNat_add] at hcode
      omega
    · exact h
  · rintro rfl
    decide

/-- The comparison asks for a second character 1 and nothing behind it. -/
theorem icompareFrom_one {value : String} :
    icompareFrom value 1 "1" = true ↔ value.toList.drop 1 = ['1'] := by
  have hone : lower "1" = ['1'] := by decide
  unfold icompareFrom
  rw [decide_eq_true_eq, hone]
  unfold lower
  rw [← List.map_drop, List.map_eq_singleton_iff]
  simp only [toLower_eq_one_iff, exists_eq_right]

/-- Two filters keep the same of a list if they agree on it. -/
theorem filter_eq_filter_iff {l : List String} {p q : String → Bool} :
    l.filter p = l.filter q ↔ ∀ value ∈ l, p value = q value := by
  constructor
  · intro h value hvalue
    have hmem : value ∈ l.filter p ↔ value ∈ l.filter q := by rw [h]
    rw [List.mem_filter, List.mem_filter, and_iff_right hvalue, and_iff_right hvalue] at hmem
    exact Bool.eq_iff_iff.mpr hmem
  · intro h
    exact List.filter_congr h

/-- The values come out right exactly if the warnings do. -/
theorem values_warning_iff {cacheResponse networkResponse : Response} :
    (∀ name, combinedValues cacheResponse networkResponse name =
      mergedValues cacheResponse networkResponse name) ↔
        WarningsFit cacheResponse networkResponse := by
  -- for this name the code looks at the second character of the value
  have hdrops : ∀ value : String, (!dropsWarning HeaderNames.Warning value) =
      (!(icompare HeaderNames.Warning HeaderNames.Warning && value.toList.head? = some '1')) ↔
        (value.toList.head? = some '1' ↔ value.toList.drop 1 = ['1']) := by
    intro value
    have hself : icompare HeaderNames.Warning HeaderNames.Warning = true := by decide
    unfold dropsWarning
    rw [hself, Bool.true_and, Bool.true_and, Bool.not_inj_iff, Bool.eq_iff_iff, icompareFrom_one,
      decide_eq_true_eq]
    exact Iff.comm
  have hwarning : (icompare HeaderNames.Warning HeaderNames.ContentLength ||
    !isEndToEnd HeaderNames.Warning) = false := by decide
  constructor
  · intro hvalues
    have hvalues := hvalues HeaderNames.Warning
    unfold mergedValues at hvalues
    rw [combinedValues_eq, hwarning, if_neg Bool.false_ne_true,
      if_neg Bool.false_ne_true] at hvalues
    -- the network response has warnings, or those of the stored one are all that there is
    by_cases hhas : networkResponse.hasHeader HeaderNames.Warning = true
    · exact .inl hhas
    · rw [if_neg hhas, if_neg hhas, filter_eq_filter_iff] at hvalues
      exact .inr fun value hvalue => (hdrops value).mp (hvalues value hvalue)
  · intro hfit name
    unfold mergedValues
    rw [combinedValues_eq]
    -- only for warnings is anything dropped
    by_cases hname : icompare name HeaderNames.Warning = true
    · have hlower : lower name = lower HeaderNames.Warning := of_decide_eq_true hname
      have hsame : ∀ other, icompare name other = icompare HeaderNames.Warning other := by
        intro other
        unfold icompare
        rw [hlower]
      have hkept : (icompare name HeaderNames.ContentLength || !isEndToEnd name) = false := by
        unfold isEndToEnd at hwarning ⊢
        simp only [hsame]
        exact hwarning
      have hhas : networkResponse.hasHeader name =
          networkResponse.hasHeader HeaderNames.Warning := by
        unfold Response.hasHeader
        rw [Headers.has_eq, Headers.has_eq, getValues_congr hlower]
      rw [hkept, if_neg Bool.false_ne_true, if_neg Bool.false_ne_true, hhas,
        getValues_congr hlower cacheResponse.headers]
      -- the warnings fit in one of two ways
      rcases hfit with hfit | hfit
      · rw [if_pos hfit, if_pos hfit]
      · congr 1
        refine List.filter_congr fun value hvalue => ?_
        unfold dropsWarning
        rw [hsame]
        exact (hdrops value).mpr (hfit value hvalue)
    -- under another name no value is dropped
    · have hother : ∀ value, dropsWarning name value = false := by
        intro value
        unfold dropsWarning
        rw [eq_false_of_ne_true hname, Bool.false_and]
      simp only [hother, eq_false_of_ne_true hname, Bool.false_and]

/-- **Combined headers.** They are as they should be if no warning is in the way, and only then. -/
theorem merges_iff (cacheResponse networkResponse : Response) :
    Merges cacheResponse networkResponse ↔ WarningsFit cacheResponse networkResponse := by
  obtain ⟨combined, hcombined, hvalues⟩ := combined_getValues cacheResponse networkResponse
  rw [← values_warning_iff]
  constructor
  · rintro ⟨combined', hcombined', hmerged, -⟩ name
    have heq : combined' = combined := Except.ok.inj (hcombined'.symm.trans hcombined)
    rw [← hvalues, ← heq, hmerged]
  · intro hmerged
    obtain ⟨again, hagain, hvaluesAgain⟩ :=
      combined_getValues { cacheResponse with headers := combined } networkResponse
    refine ⟨combined, hcombined, fun name => ?_, again, hagain, fun name => ?_⟩
    · rw [hvalues, hmerged]
    · rw [hvaluesAgain, combinedValues_again hvalues]

/-- A response with one header. -/
def withHeader (name value : String) (hname : name ≠ "") : Response where
  request := ⟨.get, "http://host/", none, 0, {}, none⟩
  headers := Headers.empty.addNamed name value hname

/-- The warning that the code adds itself. -/
def staleWarningResponse : Response :=
  withHeader HeaderNames.Warning HeaderValues.ResponseIsStale (by decide)

/-- A response with a `Date`. -/
def dateResponse : Response :=
  withHeader HeaderNames.Date "Fri, 05 Aug 2016 12:00:00 GMT" (by decide)

/-- A 110 warning of the stored response stays. -/
theorem not_merges_staleWarning :
    (combineCacheAndNetworkHeader staleWarningResponse dateResponse).map
      (·.getValues HeaderNames.Warning) = .ok [HeaderValues.ResponseIsStale] ∧
    ¬Merges staleWarningResponse dateResponse := by
  have hstays : (combineCacheAndNetworkHeader staleWarningResponse dateResponse).map
      (·.getValues HeaderNames.Warning) = .ok [HeaderValues.ResponseIsStale] := by decide
  have hmerged : mergedValues staleWarningResponse dateResponse HeaderNames.Warning = [] := by
    decide
  refine ⟨hstays, ?_⟩
  rintro ⟨combined, hcombined, hvalues, -⟩
  rw [hcombined] at hstays
  have hwarning : combined.getValues HeaderNames.Warning = [HeaderValues.ResponseIsStale] :=
    Except.ok.inj hstays
  rw [hvalues, hmerged] at hwarning
  exact List.cons_ne_nil _ _ hwarning.symm

end EasyHttp.HttpCacheStrategy
