import EasyHttp.Message.HttpUtil
import EasyHttp.Library.JsonText

/-!
# Headers through JSON and back

A JSON object has one value for a name and orders its members by name, so the text keeps
the items of a `Headers` only up to both.

* `values_decoded`: what comes back is the JSON object's members, in their order;
* `keepsValues_iff`: every value comes back in its place exactly when no name occurs twice in
  one spelling and the spellings of a name stand in ascending order of their values' places.
-/

namespace EasyHttp.HttpUtil

open ListMap (values)

/-- The items of a `Headers`, sorted by the spelling of their names. -/
def bySpelling (h : Headers) : List (String × String) := SortedMap.byKey h.items

/-- Written as JSON and read back, every name has its values in their order. -/
def KeepsValues (stringify : JsonObject → String) (parse : String → Option JsonObject)
    (h : Headers) : Prop :=
  ∃ h', exchangeJsonStrToHeaders parse (exchangeHeadersToJsonStr stringify (some h)) =
      .ok (some h') ∧
    ∀ name, h'.getValues name = h.getValues name

/-- No name occurs twice in one spelling, and sorting by spelling keeps the values of each
name in their order. -/
def SpelledInOrder (h : Headers) : Prop :=
  (h.items.map Prod.fst).Nodup ∧
    ∀ name, values lower (lower name) (bySpelling h) = h.getValues name

/-! ## What comes back -/

/-- No member is without a name. -/
theorem headersToJson_named (h : Headers) : ∀ e ∈ (headersToJson h).entries, e.1 ≠ "" := by
  intro e he
  have hmem : e.1 ∈ h.items.map Prod.fst :=
    SortedMap.mem_keys_ofList.mp (List.mem_map.mpr ⟨e, he, rfl⟩)
  obtain ⟨x, hx, hxe⟩ := List.mem_map.mp hmem
  rw [← hxe]
  exact h.named x hx

/-- Headers read back from the JSON of `h` hold the members of its JSON object. -/
theorem values_decoded {stringify : JsonObject → String} {parse : String → Option JsonObject}
    (hparse : ∀ o, parse (stringify o) = some o) (h : Headers) :
    ∃ h', exchangeJsonStrToHeaders parse (exchangeHeadersToJsonStr stringify (some h)) =
      .ok (some h') ∧
      ∀ name, h'.getValues name = values lower (lower name) (headersToJson h).entries := by
  obtain ⟨h', hadd, hitems⟩ := Headers.addAll_of_named (headersToJson_named h) Headers.empty
  refine ⟨h', ?_, fun name => ?_⟩
  · rw [exchangeHeadersToJsonStr, exchangeJsonStrToHeaders, hparse]
    show (Headers.empty.addAll (headersToJson h).entries).bind _ = _
    rw [hadd]
    rfl
  · rw [Headers.getValues, hitems, ListMap.values_foldl_insert lower _ Headers.empty.grouped]
    rfl

/-- Each member is a header with its value. -/
theorem mem_headersToJson {h : Headers} {e : String × String}
    (he : e ∈ (headersToJson h).entries) : e ∈ h.items := SortedMap.mem_of_mem_ofList he

/-- Items of a name that are those of a JSON object go back into JSON as they were. -/
theorem values_headersToJson {h : Headers} {o : JsonObject} (name : String)
    (hperm : (h.items.filter fun e => lower e.1 = lower name).Perm
      (o.entries.filter fun e => lower e.1 = lower name)) :
    values lower (lower name) (headersToJson h).entries = values lower (lower name) o.entries := by
  have hsorted := SortedMap.sorted_filter o fun k => lower k = lower name
  have hnodup : ((h.items.filter fun e => lower e.1 = lower name).map Prod.fst).Nodup :=
    (hperm.map Prod.fst).nodup_iff.mpr (hsorted.imp ne_of_lt)
  have hentries : ((headersToJson h).entries.filter fun e => lower e.1 = lower name) =
      (SortedMap.ofList (h.items.filter fun e => lower e.1 = lower name)).entries :=
    SortedMap.filter_ofList (fun k => lower k = lower name) h.items
  rw [values, hentries]
  exact congrArg (List.map Prod.snd) (SortedMap.eq_of_perm_of_sorted
    ((SortedMap.ofList_perm hnodup).trans hperm) (SortedMap.ofList _).sorted hsorted)

/-! ## When that is what was written -/

/-- The names of selected headers are the selected names. -/
theorem keys_filter (n : List Char) (l : List (String × String)) :
    (l.filter fun e => lower e.1 = n).map Prod.fst = (l.map Prod.fst).filter fun k => lower k = n := by
  rw [List.filter_map]
  rfl

/-- A name with as many values as the JSON object has spellings for it has no spelling
twice. -/
theorem nodup_of_values_eq {h : Headers} {n : List Char}
    (hv : values lower n (headersToJson h).entries = values lower n h.items) :
    ((h.items.map Prod.fst).filter fun k => lower k = n).Nodup := by
  have hnodup : (((headersToJson h).entries.map Prod.fst).filter fun k => lower k = n).Nodup :=
    (headersToJson h).nodup_keys.filter _
  have hsub : (((headersToJson h).entries.map Prod.fst).filter fun k => lower k = n) ⊆
      (h.items.map Prod.fst).filter fun k => lower k = n := by
    intro k hk
    rw [List.mem_filter] at hk ⊢
    exact ⟨SortedMap.mem_keys_ofList.mp hk.1, hk.2⟩
  have hlen := congrArg List.length hv
  simp only [values, List.length_map] at hlen
  have hle : ((h.items.map Prod.fst).filter fun k => lower k = n).length ≤
      (((headersToJson h).entries.map Prod.fst).filter fun k => lower k = n).length := by
    rw [← keys_filter, ← keys_filter, List.length_map, List.length_map]
    omega
  exact ((List.subperm_of_subset hnodup hsub).perm_of_length_le hle).nodup_iff.mp hnodup

/-- Names do not repeat if they do not in any one case-insensitive name. -/
theorem nodup_of_forall_filter {l : List String}
    (hl : ∀ n, (l.filter fun k => lower k = n).Nodup) : l.Nodup := by
  rw [List.nodup_iff_count_le_one]
  intro k
  have hk := List.nodup_iff_count_le_one.mp (hl (lower k)) k
  rwa [List.count_filter (by simp)] at hk

/-- **Headers through JSON.** With a parser that undoes the writer, the values of every name
come back in their order if and only if the headers are spelled in order. -/
theorem keepsValues_iff (stringify : JsonObject → String) (parse : String → Option JsonObject)
    (hparse : ∀ o, parse (stringify o) = some o) (h : Headers) :
    KeepsValues stringify parse h ↔ SpelledInOrder h := by
  obtain ⟨h', hdecode, hvalues⟩ := values_decoded hparse h
  constructor
  · rintro ⟨h'', hdecode', hkeep⟩
    obtain rfl : h' = h'' := Option.some.inj (Except.ok.inj (hdecode.symm.trans hdecode'))
    -- the values under a lower-case name are those under any name with that lower case
    have hnodup : (h.items.map Prod.fst).Nodup := by
      apply nodup_of_forall_filter
      intro n
      by_cases hn : ∃ name, lower name = n
      · obtain ⟨name, rfl⟩ := hn
        apply nodup_of_values_eq
        rw [← hvalues name, hkeep name]
        rfl
      · have hnil : ((h.items.map Prod.fst).filter fun k => lower k = n) = [] := by
          rw [List.filter_eq_nil_iff]
          intro k _ hk
          exact hn ⟨k, by simpa using hk⟩
        rw [hnil]
        exact List.nodup_nil
    refine ⟨hnodup, fun name => ?_⟩
    rw [← hkeep name, hvalues name, bySpelling, ← SortedMap.ofList_entries_of_nodup hnodup]
    rfl
  · rintro ⟨hnodup, horder⟩
    refine ⟨h', hdecode, fun name => ?_⟩
    rw [hvalues name, ← horder name, bySpelling, ← SortedMap.ofList_entries_of_nodup hnodup]
    rfl

/-! ## Concrete text -/

/-- The text of a JSON object of strings. -/
def jsonStringify (o : JsonObject) : String :=
  String.ofList (JsonText.print (o.entries.map fun e => (e.1.toList, e.2.toList)))

/-- The object in a text, its members set one after another. -/
def jsonParse (s : String) : Option JsonObject :=
  (JsonText.parse s.toList).map fun ms =>
    SortedMap.ofList (ms.map fun m => (String.ofList m.1, String.ofList m.2))

/-- The library reads back what it writes. -/
theorem jsonParse_jsonStringify (o : JsonObject) : jsonParse (jsonStringify o) = some o := by
  rw [jsonParse, jsonStringify, String.toList_ofList, JsonText.parse_print, Option.map_some,
    List.map_map]
  have hid : (o.entries.map ((fun m : List Char × List Char =>
      (String.ofList m.1, String.ofList m.2)) ∘ fun e => (e.1.toList, e.2.toList))) = o.entries := by
    simp [Function.comp_def]
  rw [hid, SortedMap.ofList_entries]

/-- Headers of a plain response. -/
def plainHeaders : Headers where
  items := [("Content-Type", "text"), ("ETag", "v1")]
  grouped := by decide
  named := by decide

theorem keepsValues_plainHeaders : KeepsValues jsonStringify jsonParse plainHeaders := by
  have hsorted : bySpelling plainHeaders = plainHeaders.items := by decide
  rw [keepsValues_iff jsonStringify jsonParse jsonParse_jsonStringify plainHeaders]
  refine ⟨by decide, fun name => ?_⟩
  rw [hsorted]
  rfl

/-- Headers with two `Warning` lines. -/
def warningHeaders : Headers where
  items := [("Warning", "110 - Response is stale"), ("Warning", "199 - Miscellaneous")]
  grouped := by decide
  named := by decide

/-- Of two `Warning` lines one is lost. -/
theorem not_keepsValues_warningHeaders : ¬ KeepsValues jsonStringify jsonParse warningHeaders := by
  intro hkeep
  obtain ⟨h', hdecode, hvalues⟩ := hkeep
  have hv := hvalues "Warning"
  obtain ⟨h'', hdecode', hvalues'⟩ := values_decoded jsonParse_jsonStringify warningHeaders
  obtain rfl : h' = h'' := Option.some.inj (Except.ok.inj (hdecode.symm.trans hdecode'))
  rw [hvalues'] at hv
  revert hv
  decide

end EasyHttp.HttpUtil
