import EasyHttp.Db.SqliteQueryBuilder
import EasyHttp.Library.References
import EasyHttp.Library.SortedMap
import Mathlib.Data.List.Dedup
import Mathlib.Data.List.TakeWhile
import Mathlib.Data.String.Basic

/-!
# What a `ContentValues` stores

A `ContentValues` puts its entries into a `Poco::Util::MapConfiguration`. There a name is a path
whose parts end at dots, and a value may refer to other entries.

* `Poco`, `Documented`: the configuration, and what is documented of it;
* `Stores`: what was put is what is read;
* `IsPlain`: no name has a dot, and no value refers to a name that was put;
* `stores_iff`: what was put is read if and only if it is plain;
* `mapConfiguration`: a configuration that does as is documented.
-/

namespace EasyHttp.Db

open References

/-- The operations of `Poco::Util::MapConfiguration` that are used; `read` has those that only
read. -/
structure Poco (Conf : Type) where
  create : Conf
  setString : Conf → String → String → Conf
  read : Conf → MapConfiguration

namespace ContentValues

variable {Conf : Type}

/-- A number is put as its text. -/
def put (poco : Poco Conf) (conf : Conf) (key value : String) : Conf :=
  poco.setString conf key value

/-- A `ContentValues` after calls of `put`, each with a name and the text of a value. -/
def putAll (poco : Poco Conf) (puts : List (String × String)) : ContentValues where
  conf := poco.read (puts.foldl (fun conf p => put poco conf p.1 p.2) poco.create)

/-- The value put last for a name. -/
def lastPut : List (String × String) → String → Option String
  | [], _ => none
  | p :: puts, key => (lastPut puts key).or (if p.1 = key then some p.2 else none)

/-! ## The configuration -/

/-- The part of a name before its first dot. -/
def beforeDot (key : String) : String := String.ofList (key.toList.takeWhile (· ≠ '.'))

/-- References are written `${name}`. -/
def delimiters (closesAtEnd : Bool) : Delimiters Char where
  mark := '$'
  opening := '\x7b'
  closing := '\x7d'
  opening_ne_mark := by decide
  closing_ne_mark := by decide
  closing_ne_opening := by decide
  closesAtEnd := closesAtEnd

/-- The texts that can be referred to. -/
def raw (puts : List (String × String)) (name : List Char) : Option (List Char) :=
  (lastPut puts (String.ofList name)).map String.toList

/-- A value with its references. -/
def valuePieces (closesAtEnd : Bool) (value : String) : List (Piece Char) :=
  pieces (delimiters closesAtEnd) value.toList

/-- What is documented: `keys` returns the names at the root, and `getString` the value with its
references expanded. It may throw where references lead to references; what is made of a reference
that is not closed is left open. -/
structure Documented (poco : Poco Conf) (closesAtEnd : Bool) : Prop where
  keys_iff : ∀ puts key, key ∈ (putAll poco puts).conf.keys ↔ ∃ p ∈ puts, beforeDot p.1 = key
  keys_nodup : ∀ puts, (putAll poco puts).conf.keys.Nodup
  getString_expands : ∀ puts key result, (putAll poco puts).conf.getString key = some result →
    ∃ value, lastPut puts key = some value ∧ Expands (delimiters closesAtEnd) (raw puts)
      (valuePieces closesAtEnd value) result.toList
  getString_isSome : ∀ puts key value, lastPut puts key = some value →
    (∀ name closed, .reference name closed ∈ valuePieces closesAtEnd value →
      raw puts name = none) → ((putAll poco puts).conf.getString key).isSome

/-! ## What is read -/

/-- What was put is what is read. -/
structure Stores (poco : Poco Conf) (puts : List (String × String)) : Prop where
  getKeys_iff : ∀ key, key ∈ (putAll poco puts).getKeys ↔ ∃ value, (key, value) ∈ puts
  getKeys_nodup : (putAll poco puts).getKeys.Nodup
  getStringValue_eq : ∀ key value, lastPut puts key = some value →
    (putAll poco puts).getStringValue key = .ok value

/-- No name has a dot. Each reference in a value put last is closed, and its name was not put. -/
structure IsPlain (closesAtEnd : Bool) (puts : List (String × String)) : Prop where
  names : ∀ p ∈ puts, '.' ∉ p.1.toList
  values : ∀ p ∈ puts, lastPut puts p.1 = some p.2 →
    ∀ piece ∈ valuePieces closesAtEnd p.2, piece.Inert (raw puts)

/-- What was put last was put. -/
theorem mem_of_lastPut {puts : List (String × String)} {key value : String}
    (h : lastPut puts key = some value) : (key, value) ∈ puts := by
  induction puts with
  | nil => cases h
  | cons p puts ih =>
    rcases Option.or_eq_some_iff.mp h with hlast | ⟨-, hfirst⟩
    · exact List.mem_cons_of_mem p (ih hlast)
    · by_cases hkey : p.1 = key
      · rw [if_pos hkey] at hfirst
        cases hfirst
        exact hkey ▸ List.mem_cons_self
      · rw [if_neg hkey] at hfirst
        cases hfirst

/-- A key that was put has a value. -/
theorem lastPut_isSome {puts : List (String × String)} {p : String × String} (hp : p ∈ puts) :
    (lastPut puts p.1).isSome := by
  induction puts with
  | nil => cases hp
  | cons q puts ih =>
    rw [lastPut, Option.isSome_or, Bool.or_eq_true]
    rcases List.mem_cons.mp hp with rfl | hp
    · exact .inr (by rw [if_pos rfl]; rfl)
    · exact .inl (ih hp)

/-- Where each name is put once, what was put for it is put last. -/
theorem lastPut_of_mem {puts : List (String × String)} (hnodup : (puts.map Prod.fst).Nodup)
    {p : String × String} (hp : p ∈ puts) : lastPut puts p.1 = some p.2 := by
  obtain ⟨value, hvalue⟩ := Option.isSome_iff_exists.mp (lastPut_isSome hp)
  have hsame := List.inj_on_of_nodup_map hnodup hp (mem_of_lastPut hvalue) rfl
  rw [hvalue]
  exact congrArg (fun q => some q.2) hsame.symm

/-- A key that was not put has no value. -/
theorem lastPut_eq_none {puts : List (String × String)} {key : String}
    (h : key ∉ puts.map Prod.fst) : lastPut puts key = none := by
  rw [Option.eq_none_iff_forall_ne_some]
  intro value hvalue
  exact h (List.mem_map_of_mem (mem_of_lastPut hvalue))

/-- A reference stands for the value put last under its name. -/
theorem raw_eq_some_iff {puts : List (String × String)} {name text : List Char} :
    raw puts name = some text ↔ lastPut puts (String.ofList name) = some (String.ofList text) := by
  rw [raw, Option.map_eq_some_iff]
  constructor
  · rintro ⟨value, hvalue, rfl⟩
    rw [hvalue, String.ofList_toList]
  · intro h
    exact ⟨_, h, String.toList_ofList⟩

theorem dot_notMem_beforeDot (key : String) : '.' ∉ (beforeDot key).toList := by
  intro hmem
  rw [beforeDot, String.toList_ofList] at hmem
  simpa using List.mem_takeWhile_imp hmem

/-- A key without a dot is its own front. -/
theorem beforeDot_eq_self {key : String} (h : '.' ∉ key.toList) : beforeDot key = key := by
  have hall : ∀ c ∈ key.toList, decide (c ≠ '.') = true := by
    intro c hc
    exact decide_eq_true fun heq => h (heq ▸ hc)
  rw [beforeDot, List.takeWhile_eq_self_iff.mpr hall, String.ofList_toList]

/-- The value of a key is what the configuration answers. -/
theorem getStringValue_eq_ok_iff {values : ContentValues} {key value : String} :
    values.getStringValue key = .ok value ↔ values.conf.getString key = some value := by
  unfold getStringValue
  cases values.conf.getString key <;> simp

section
variable {poco : Poco Conf} {closesAtEnd : Bool} {puts : List (String × String)}

/-- What is stored comes out as it is. -/
theorem unchanged_of_stores (hpoco : Documented poco closesAtEnd) (h : Stores poco puts) :
    Unchanged (delimiters closesAtEnd) (raw puts) := by
  intro name text hname
  have hlast := raw_eq_some_iff.mp hname
  have hget := getStringValue_eq_ok_iff.mp (h.getStringValue_eq _ _ hlast)
  obtain ⟨value, hvalue, hexpands⟩ := hpoco.getString_expands puts _ _ hget
  rw [hlast] at hvalue
  cases hvalue
  rw [valuePieces, String.toList_ofList] at hexpands
  exact hexpands

/-- A plain value is returned. -/
theorem getStringValue_of_plain (hpoco : Documented poco closesAtEnd)
    (h : IsPlain closesAtEnd puts) {key value : String} (hlast : lastPut puts key = some value) :
    (putAll poco puts).getStringValue key = .ok value := by
  have hinert := h.values (key, value) (mem_of_lastPut hlast) hlast
  have hsome := hpoco.getString_isSome puts key value hlast fun name closed hmem =>
    (hinert _ hmem).1
  obtain ⟨result, hresult⟩ := Option.isSome_iff_exists.mp hsome
  obtain ⟨value', hvalue', hexpands⟩ := hpoco.getString_expands puts key result hresult
  rw [hlast] at hvalue'
  cases hvalue'
  -- the value as it is, is the one result
  have hsame := expands_of_inert hinert (d := delimiters closesAtEnd)
  rw [valuePieces, render_pieces] at hsame
  have heq : result = value := String.toList_inj.mp (hexpands.unique hsame)
  rw [getStringValue_eq_ok_iff, hresult, heq]

/-- **What was put is read** if and only if no name has a dot and no value refers to an entry. -/
theorem stores_iff (hpoco : Documented poco closesAtEnd) (puts : List (String × String)) :
    Stores poco puts ↔ IsPlain closesAtEnd puts := by
  constructor
  · intro h
    have hinert := unchanged_iff.mp (unchanged_of_stores hpoco h)
    refine ⟨fun p hp => ?_, fun p _ hlast => ?_⟩
    · have hkey := (h.getKeys_iff p.1).mpr ⟨p.2, hp⟩
      obtain ⟨q, -, hq⟩ := (hpoco.keys_iff puts p.1).mp hkey
      rw [← hq]
      exact dot_notMem_beforeDot q.1
    · refine hinert p.1.toList p.2.toList (raw_eq_some_iff.mpr ?_)
      rw [String.ofList_toList, String.ofList_toList]
      exact hlast
  · intro h
    refine ⟨fun key => ?_, hpoco.keys_nodup puts, fun key value => getStringValue_of_plain hpoco h⟩
    refine (hpoco.keys_iff puts key).trans ⟨?_, ?_⟩
    · rintro ⟨p, hp, rfl⟩
      rw [beforeDot_eq_self (h.names p hp)]
      exact ⟨p.2, hp⟩
    · rintro ⟨value, hmem⟩
      exact ⟨_, hmem, beforeDot_eq_self (h.names _ hmem)⟩

end

/-! ## A configuration -/

/-- A sorted map of the entries; references are followed to a depth of ten. -/
def mapConfiguration : Poco (SortedMap String String) where
  create := SortedMap.empty
  setString := SortedMap.set
  read conf := {
    keys := (conf.entries.map fun e => beforeDot e.1).dedup
    getString := fun key => (conf.find? key).bind fun value =>
      (expand (delimiters true) (fun name => (conf.find? (String.ofList name)).map String.toList)
        10 value.toList).map String.ofList }

theorem find?_foldl_set (puts : List (String × String)) (conf : SortedMap String String)
    (key : String) : (puts.foldl (fun conf p => conf.set p.1 p.2) conf).find? key =
      (lastPut puts key).or (conf.find? key) := by
  induction puts generalizing conf with
  | nil => rfl
  | cons p puts ih =>
    rw [List.foldl_cons, ih, lastPut, Option.or_assoc, SortedMap.find?_set]
    by_cases hkey : key = p.1
    · rw [if_pos hkey, if_pos hkey.symm]
      rfl
    · rw [if_neg hkey, if_neg (Ne.symm hkey)]
      rfl

/-- The map holds what was put last. -/
theorem find?_ofList (puts : List (String × String)) (key : String) :
    (SortedMap.ofList puts).find? key = lastPut puts key := by
  rw [SortedMap.ofList, find?_foldl_set, SortedMap.find?_empty, Option.or_none]

/-- What is read of the entries. -/
theorem conf_putAll (puts : List (String × String)) :
    (putAll mapConfiguration puts).conf = {
      keys := ((SortedMap.ofList puts).entries.map fun e => beforeDot e.1).dedup
      getString := fun key => (lastPut puts key).bind fun value =>
        (expand (delimiters true) (raw puts) 10 value.toList).map String.ofList } := by
  show mapConfiguration.read (SortedMap.ofList puts) = _
  simp only [mapConfiguration, find?_ofList]
  rfl

/-- The sorted map does as is documented. -/
theorem documented_mapConfiguration : Documented mapConfiguration true where
  keys_iff puts key := by
    rw [conf_putAll, List.mem_dedup]
    have hkeys (name : String) : name ∈ (SortedMap.ofList puts).entries.map Prod.fst ↔
        name ∈ puts.map Prod.fst := SortedMap.mem_keys_ofList
    simp only [List.mem_map] at hkeys ⊢
    constructor
    · rintro ⟨e, he, rfl⟩
      obtain ⟨p, hp, hname⟩ := (hkeys e.1).mp ⟨e, he, rfl⟩
      exact ⟨p, hp, by rw [hname]⟩
    · rintro ⟨p, hp, rfl⟩
      obtain ⟨e, he, hname⟩ := (hkeys p.1).mpr ⟨p, hp, rfl⟩
      exact ⟨e, he, by rw [hname]⟩
  keys_nodup puts := by
    rw [conf_putAll]
    exact List.nodup_dedup _
  getString_expands puts key result h := by
    rw [conf_putAll] at h
    obtain ⟨value, hvalue, h⟩ := Option.bind_eq_some_iff.mp h
    obtain ⟨text, htext, rfl⟩ := Option.map_eq_some_iff.mp h
    refine ⟨value, hvalue, ?_⟩
    rw [String.toList_ofList]
    exact expands_of_expand htext
  getString_isSome puts key value hvalue h := by
    have hsome : (expand (delimiters true) (raw puts) 10 value.toList).isSome := isSome_expand h
    rw [conf_putAll]
    simpa [hvalue] using hsome

/-- A status text with a reference to a name that no column has. -/
theorem stores_iff_unknown : Stores mapConfiguration
    [("status_message", "OK $\x7bstatus\x7d"), ("cache_key", "GET https://a/")] := by
  refine (stores_iff documented_mapConfiguration _).mpr ⟨by decide, ?_⟩
  decide +kernel

/-- A server that answers with the status text `${cache_key}`. -/
theorem not_stores_status : ¬Stores mapConfiguration
    [("cache_key", "k"), ("status_message", "$\x7bcache_key\x7d")] := by
  intro h
  have hread := h.getStringValue_eq "status_message" "$\x7bcache_key\x7d" (by decide +kernel)
  have hexpanded : (putAll mapConfiguration
      [("cache_key", "k"), ("status_message", "$\x7bcache_key\x7d")]).getStringValue
        "status_message" = .ok "k" := by
    rw [getStringValue_eq_ok_iff, conf_putAll]
    decide +kernel
  rw [hexpanded] at hread
  exact absurd hread (by decide)

end ContentValues

end EasyHttp.Db
