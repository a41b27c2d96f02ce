import EasyHttp.Library.ListMap

/-!
# Headers

`Headers` keeps its items in a `Poco::ListMap`, a multimap in a list that compares names
without regard to letter case. The class keeps two invariants: no name is empty, and items
with equal names stand next to each other.
-/

namespace EasyHttp

/-- The exceptions that pass through the code, each with its message. `poco` is an exception
of the Poco library. -/
inductive HttpException where
  | illegalArgument (message : String)
  | illegalState (message : String)
  | execution (message : String)
  | timeout (message : String)
  | ssl (message : String)
  | connectionRetry (message : String)
  | poco (message : String)
deriving DecidableEq

namespace HttpConstants

namespace HeaderNames

def Age := "Age"
def Authorization := "Authorization"
def CacheControl := "Cache-Control"
def Connection := "Connection"
def ContentLength := "Content-Length"
def Date := "Date"
def ETag := "ETag"
def Expires := "Expires"
def IfModifiedSince := "If-Modified-Since"
def IfNoneMatch := "If-None-Match"
def KeepAlive := "Keep-Alive"
def LastModified := "Last-Modified"
def Location := "Location"
def Pragma := "Pragma"
def ProxyAuthenticate := "Proxy-Authenticate"
def ProxyAuthorization := "Proxy-Authorization"
def Te := "TE"
def Trailers := "Trailers"
def TransferEncoding := "Transfer-Encoding"
def Upgrade := "Upgrade"
def Warning := "Warning"

end HeaderNames

namespace HeaderValues

def Chunked := "chunked"
def HeuristicExpiration := "113 - Heuristic expiration"
def ResponseIsStale := "110 - Response is stale"

end HeaderValues

namespace CacheDirectives

def MaxAge := "max-age"
def MaxStale := "max-stale"
def MinFresh := "min-fresh"
def MustRevalidate := "must-revalidate"
def NoCache := "no-cache"
def NoStore := "no-store"
def NoTransform := "no-transform"
def OnlyIfCached := "only-if-cached"
def Private := "private"
def Public := "public"
def SMaxAge := "s-maxage"

end CacheDirectives

end HttpConstants

/-- What `Poco::icompare` compares: a string with its ASCII letters in lower case. -/
def lower (s : String) : List Char := s.toList.map Char.toLower

/-- `Poco::icompare(s, t) == 0`. -/
def icompare (s t : String) : Bool := lower s = lower t

/-- `Poco::icompare(s, pos, t) == 0` for a character array `t`: the part of `s` from `pos` on is
compared with all of `t`. -/
def icompareFrom (s : String) (pos : ℕ) (t : String) : Bool := (lower s).drop pos = lower t

/-- A list of header items. -/
structure Headers where
  items : List (String × String)
  grouped : ListMap.Grouped lower items
  named : ∀ e ∈ items, e.1 ≠ ""

namespace Headers

instance : DecidableEq Headers := fun h h' =>
  decidable_of_iff (h.items = h'.items)
    ⟨fun he => by cases h; cases h'; cases he; rfl, congrArg items⟩

theorem ext_items {h h' : Headers} (he : h.items = h'.items) : h = h' := by
  cases h
  cases h'
  cases he
  rfl

/-- `Headers()`. -/
def empty : Headers where
  items := []
  grouped := trivial
  named := by simp

/-- `add`, when the name is not empty. -/
def addNamed (h : Headers) (name value : String) (hname : name ≠ "") : Headers where
  items := ListMap.insert lower name value h.items
  grouped := ListMap.grouped_insert lower name value h.grouped
  named := by
    intro e he
    rcases (ListMap.mem_insert lower).mp he with rfl | he
    · exact hname
    · exact h.named e he

def add (h : Headers) (name value : String) : Except HttpException Headers :=
  if hname : name = "" then
    .error (.illegalArgument "can not add empty name in header.")
  else
    .ok (h.addNamed name value hname)

/-- `erase` and `operator[]` of the list map, on the items of a `Headers`. -/
def setItems (h : Headers) (name value : String) : List (String × String) :=
  ListMap.assign lower name value (ListMap.erase lower name h.items)

theorem setItems_eq (h : Headers) (name value : String) :
    h.setItems name value = (h.items.filter fun e => lower e.1 ≠ lower name) ++ [(name, value)] :=
  ListMap.assign_erase lower name value h.grouped

/-- `set`, when the name is not empty. -/
def setNamed (h : Headers) (name value : String) (hname : name ≠ "") : Headers where
  items := h.setItems name value
  grouped := by
    rw [setItems_eq]
    apply ListMap.grouped_append_singleton
    · have hg := ListMap.grouped_filter lower (fun n => decide (n ≠ lower name)) h.grouped
      simpa using hg
    · simp [ListMap.keys]
  named := by
    intro e he
    rw [setItems_eq, List.mem_append, List.mem_singleton] at he
    rcases he with he | rfl
    · exact h.named e (List.mem_filter.mp he).1
    · exact hname

def set (h : Headers) (name value : String) : Except HttpException Headers :=
  if hname : name = "" then
    .error (.illegalArgument "can not set empty name in header.")
  else
    .ok (h.setNamed name value hname)

def getValue (h : Headers) (name defaultValue : String) : String :=
  match ListMap.find? lower name h.items with
  | some e => e.2
  | none => defaultValue

def has (h : Headers) (name : String) : Bool := (ListMap.find? lower name h.items).isSome

/-- All values under a name, in order. -/
def getValues (h : Headers) (name : String) : List String :=
  ListMap.values lower (lower name) h.items

/-! ## What the operations do -/

@[simp] theorem items_empty : empty.items = [] := rfl

theorem has_iff {h : Headers} {name : String} :
    h.has name = true ↔ ∃ e ∈ h.items, lower e.1 = lower name := by
  rw [← ListMap.mem_keys, ← not_iff_not, ← ListMap.find?_eq_none_iff, has]
  cases ListMap.find? lower name h.items <;> simp

theorem has_eq_false_iff {h : Headers} {name : String} :
    h.has name = false ↔ ∀ e ∈ h.items, lower e.1 ≠ lower name := by
  rw [← Bool.not_eq_true, has_iff]
  simp

theorem getValue_eq (h : Headers) (name defaultValue : String) :
    h.getValue name defaultValue = (h.getValues name).head?.getD defaultValue := by
  rw [getValues, ← ListMap.map_find?, getValue]
  cases ListMap.find? lower name h.items <;> rfl

theorem has_eq (h : Headers) (name : String) :
    h.has name = (h.getValues name).head?.isSome := by
  rw [getValues, ← ListMap.map_find?, has]
  cases ListMap.find? lower name h.items <;> rfl

theorem add_of_ne {h : Headers} {name value : String} (hname : name ≠ "") :
    h.add name value = .ok (h.addNamed name value hname) := by
  rw [add, dif_neg hname]

theorem set_of_ne {h : Headers} {name value : String} (hname : name ≠ "") :
    h.set name value = .ok (h.setNamed name value hname) := by
  rw [set, dif_neg hname]

/-- Setting a name that is absent puts its item at the end. -/
theorem items_setNamed_of_not_has {h : Headers} {name value : String} (hname : name ≠ "")
    (hnot : h.has name = false) :
    (h.setNamed name value hname).items = h.items ++ [(name, value)] := by
  rw [has_eq_false_iff] at hnot
  show h.setItems name value = _
  rw [setItems_eq, List.filter_eq_self.mpr]
  intro e he
  simpa using hnot e he

/-- The loop that adds items one by one. -/
def addAll (h : Headers) (items : List (String × String)) : Except HttpException Headers :=
  items.foldlM (fun h e => h.add e.1 e.2) h

/-- Adding named items inserts them into the list map in order. -/
theorem addAll_of_named {items : List (String × String)} (hnamed : ∀ e ∈ items, e.1 ≠ "")
    (h : Headers) : ∃ h', h.addAll items = .ok h' ∧
      h'.items = items.foldl (fun acc e => ListMap.insert lower e.1 e.2 acc) h.items := by
  induction items generalizing h with
  | nil => exact ⟨h, rfl, rfl⟩
  | cons e items ih =>
    have he : e.1 ≠ "" := hnamed e List.mem_cons_self
    obtain ⟨h', hadd, hitems⟩ :=
      ih (fun x hx => hnamed x (List.mem_cons_of_mem e hx)) (h.addNamed e.1 e.2 he)
    refine ⟨h', ?_, hitems⟩
    rw [addAll, List.foldlM_cons, add_of_ne he]
    exact hadd

/-- Items that could be added have been inserted into the list map in order. -/
theorem items_addAll {h h' : Headers} {items : List (String × String)}
    (hadd : h.addAll items = .ok h') :
    h'.items = items.foldl (fun acc e => ListMap.insert lower e.1 e.2 acc) h.items := by
  induction items generalizing h with
  | nil =>
    cases hadd
    rfl
  | cons e items ih =>
    rw [addAll, List.foldlM_cons] at hadd
    by_cases he : e.1 = ""
    · rw [add, dif_pos he] at hadd
      cases hadd
    · rw [add_of_ne he] at hadd
      exact ih hadd

theorem addAll_perm {h h' : Headers} {items : List (String × String)}
    (hadd : h.addAll items = .ok h') : h'.items.Perm (h.items ++ items) := by
  rw [items_addAll hadd]
  exact ListMap.foldl_insert_perm lower h.items items

/-- Adding the items that a test on names keeps gives just these items. -/
theorem addAll_filter (h : Headers) (p : List Char → Bool) :
    ∃ h', Headers.empty.addAll (h.items.filter fun e => p (lower e.1)) = .ok h' ∧
      h'.items = h.items.filter fun e => p (lower e.1) := by
  have hnamed : ∀ e ∈ h.items.filter fun e => p (lower e.1), e.1 ≠ "" :=
    fun e he => h.named e (List.mem_filter.mp he).1
  obtain ⟨h', hadd, hitems⟩ := addAll_of_named hnamed Headers.empty
  refine ⟨h', hadd, ?_⟩
  rw [hitems]
  exact ListMap.foldl_insert_nil lower (ListMap.grouped_filter lower p h.grouped)

end Headers

end EasyHttp
