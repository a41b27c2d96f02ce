import EasyHttp.Cache.HttpCacheStrategyTheorems
import EasyHttp.Library.Word64
import Mathlib.Tactic.SplitIfs

/-!
# Freshness over the integers

The age condition is stated once over the integers, with the reductions that an arithmetic
makes as a parameter: `exact` makes none, `word64` reduces to 64-bit words.

* `fresh_word64_iff`: the code decides the condition in `word64`;
* `Misjudged`: the inputs on which a reduction turns a stale response into a fresh one, by the
  64-bit words in which the two sums stand and by the `max-age` that is lost;
* `servesOnlyFresh_iff`: on all others, and only there, the code answers from the cache only what
  is fresh in `exact`. None of them is misjudged while no directive is below -1 and the age
  together with `min-fresh` fits in 64 bits.
-/

namespace EasyHttp.HttpCacheStrategy

open HttpConstants Exec Word64

/-! ## The condition over the integers -/

/-- What an arithmetic makes of a signed difference and of an unsigned number. -/
structure Arithmetic where
  signed : ℤ → ℤ
  unsigned : ℤ → ℤ

/-- The integers themselves. -/
def exact : Arithmetic := ⟨id, id⟩

/-- 64-bit words. -/
def word64 : Arithmetic := ⟨signed64, unsigned64⟩

section
variable (arith : Arithmetic) (p : Prepared)

/-- The age on receipt by the `Date` header, not below 0. -/
def apparentReceivedAge : ℤ :=
  match p.responseDate with
  | some date =>
    max 0 (arith.signed (p.cacheResponse.receivedResponseSec.toInt - date.epochTime.toInt))
  | none => 0

/-- The age on receipt, by the `Date` or the `Age` header. -/
def receivedAge : ℤ :=
  match p.ageSec with
  | some ageSec => max (apparentReceivedAge arith p) ageSec.toInt
  | none => apparentReceivedAge arith p

/-- The age now: the age on receipt, and the time since the request was sent. -/
def currentAge : ℤ :=
  receivedAge arith p + (p.nowAtEpoch.toNat - p.cacheResponse.sentRequestSec.toInt)

/-- The lifetime by `max-age`, by `Expires`, or a tenth of the time since `Last-Modified`. -/
def freshnessLifetime (poco : Poco) : Except HttpException ℤ :=
  if responseMaxAgeSec p ≠ -1 then .ok (arith.unsigned (responseMaxAgeSec p).toInt)
  else match p.expires with
    | some expires =>
      .ok (max 0 (arith.signed (expires.epochTime.toInt
        - (responseSec p p.cacheResponse.receivedResponseSec).toInt)))
    | none => do
      let uri ← poco.parseUri p.cacheResponse.request.url
      match p.lastModified with
      | some lastModified =>
        if uri.query = "" then
          return max 0 (arith.signed ((responseSec p p.cacheResponse.sentRequestSec).toInt
            - lastModified.epochTime.toInt)) / 10
        else return 0
      | none => return 0

variable (request : CacheControl)

/-- A lifetime, capped by the request's `max-age`. -/
def cappedLifetime (lifetime : ℤ) : ℤ :=
  if request.maxAgeSec ≠ -1 then min lifetime (arith.unsigned request.maxAgeSec.toInt)
  else lifetime

/-- What the request wants to be left of the lifetime. -/
def minFresh : ℤ :=
  if request.minFreshSec ≠ -1 then arith.unsigned request.minFreshSec.toInt else 0

/-- How long over its lifetime the request accepts a response; nothing under `must-revalidate`. -/
def maxStale : ℤ :=
  if isResponseMustRevalidate p = false ∧ request.maxStaleSec ≠ -1 then
    arith.unsigned request.maxStaleSec.toInt
  else 0

/-- The stored response may answer the request. -/
def Fresh (poco : Poco) : Prop :=
  isResponseNoCache p = false ∧ ∃ lifetime, freshnessLifetime arith p poco = .ok lifetime ∧
    arith.unsigned (currentAge arith p + minFresh arith request) <
      arith.unsigned (cappedLifetime arith request lifetime + maxStale arith p request)

end

/-- Over 64-bit words the response is fresh, over the integers it is stale. -/
def WrapMakesFresh (poco : Poco) (request : CacheControl) (p : Prepared) : Prop :=
  Fresh word64 p request poco ∧ ¬ Fresh exact p request poco

/-- When the constructor ends with a stored response and nothing to send, that response is
fresh over the integers. -/
def ServesOnlyFresh (poco : Poco) (request : Request) (response : Response) (now : UInt64) :
    Prop :=
  ∀ s strategy s', exec (construct poco request (some response) now) s = (.ok strategy, s') →
    strategy.networkRequest = none → strategy.cacheResponse ≠ none →
    Fresh exact (prepare poco response now) request.cacheControl poco

/-! ## The code decides the condition in 64-bit words -/

/-- The received age as a signed word. -/
def receivedAgeWord (p : Prepared) : Int64 :=
  let apparent := match p.responseDate with
    | some date => max 0 (p.cacheResponse.receivedResponseSec - date.epochTime)
    | none => 0
  match p.ageSec with
  | some ageSec => max apparent ageSec
  | none => apparent

/-- It stands for the received age in `word64`. -/
theorem toInt_receivedAgeWord (p : Prepared) :
    (receivedAgeWord p).toInt = receivedAge word64 p := by
  have happarent : (match p.responseDate with
      | some date => max 0 (p.cacheResponse.receivedResponseSec - date.epochTime)
      | none => (0 : Int64)).toInt = apparentReceivedAge word64 p := by
    unfold apparentReceivedAge
    cases p.responseDate with
    | none => rfl
    | some date => rw [toInt_max, toInt_sub]; rfl
  unfold receivedAgeWord receivedAge
  cases p.ageSec with
  | none => exact happarent
  | some ageSec =>
    show (max _ ageSec).toInt = _
    rw [toInt_max, happarent]

/-- The code's age is the age in `word64`, taken as an unsigned word. -/
theorem toNat_calculateCacheResponseAge (p : Prepared) :
    ((calculateCacheResponseAge p).toNat : ℤ) = unsigned64 (currentAge word64 p) := by
  have hage : calculateCacheResponseAge p =
      (receivedAgeWord p + (p.cacheResponse.receivedResponseSec - p.cacheResponse.sentRequestSec)
        + (p.nowAtEpoch - p.cacheResponse.receivedResponseSec.toUInt64).toInt64).toUInt64 := rfl
  rw [hage, Int64.toUInt64_add, Int64.toUInt64_add, Int64.toUInt64_sub, UInt64.toUInt64_toInt64,
    toNat_add, toNat_add, toNat_sub, toNat_sub, toNat_toUInt64, toNat_toUInt64, toNat_toUInt64,
    toInt_receivedAgeWord]
  unfold currentAge unsigned64
  omega

/-- A difference below 0 counts as 0. -/
theorem toNat_positive (delta : Int64) :
    ((if delta > 0 then delta else 0).toUInt64.toNat : ℤ) = max 0 delta.toInt := by
  have hu := toInt_lt delta
  have hzero : (0 : Int64).toInt = 0 := rfl
  rw [toNat_toUInt64]
  split_ifs with hpos
  · rw [gt_iff_lt, Int64.lt_iff_toInt_lt, hzero] at hpos
    rw [unsigned64_of_lt] <;> omega
  · rw [gt_iff_lt, Int64.lt_iff_toInt_lt, hzero] at hpos
    rw [hzero, unsigned64_of_lt] <;> omega

/-- So for a tenth of the difference. -/
theorem toNat_positive_div (delta : Int64) :
    ((if delta > 0 then delta / 10 else 0).toUInt64.toNat : ℤ) = max 0 delta.toInt / 10 := by
  have hu := toInt_lt delta
  have hzero : (0 : Int64).toInt = 0 := rfl
  have hten : (10 : Int64).toInt = 10 := rfl
  rw [toNat_toUInt64]
  split_ifs with hpos
  · rw [gt_iff_lt, Int64.lt_iff_toInt_lt, hzero] at hpos
    rw [toInt_div _ _ (by decide), hten, Int.tdiv_eq_ediv_of_nonneg (by omega),
      unsigned64_of_lt] <;> omega
  · rw [gt_iff_lt, Int64.lt_iff_toInt_lt, hzero] at hpos
    rw [hzero, unsigned64_of_lt] <;> omega

/-- The code's lifetime is the lifetime in `word64`. -/
theorem freshnessLifetime_word64 (poco : Poco) (p : Prepared) :
    freshnessLifetime word64 p poco =
      (calculateFreshnessLifetime poco p).map fun freshSec => (freshSec.toNat : ℤ) := by
  unfold freshnessLifetime calculateFreshnessLifetime
  by_cases hmax : responseMaxAgeSec p ≠ -1
  · rw [if_pos hmax, if_pos hmax, Except.map, toNat_toUInt64]
    rfl
  rw [if_neg hmax, if_neg hmax]
  cases p.expires with
  | some expires =>
    simp only [Except.map]
    rw [toNat_positive, toInt_sub]
    rfl
  | none =>
    cases poco.parseUri p.cacheResponse.request.url with
    | error e => rfl
    | ok uri =>
      cases p.lastModified with
      | none => rfl
      | some lastModified =>
        by_cases hquery : uri.query = ""
        · have hdiv := toNat_positive_div
            (responseSec p p.cacheResponse.sentRequestSec - lastModified.epochTime)
          rw [toInt_sub] at hdiv
          show (if uri.query = "" then _ else _) = Except.map _ (if uri.query = "" then _ else _)
          rw [if_pos hquery, if_pos hquery]
          exact congrArg Except.ok hdiv.symm
        · show (if uri.query = "" then _ else _) = Except.map _ (if uri.query = "" then _ else _)
          rw [if_neg hquery, if_neg hquery]
          rfl

/-- A directive that is present, as an unsigned word. -/
theorem toNat_directive {present : Prop} [Decidable present] (value : Int64) :
    ((if present then value.toUInt64 else 0).toNat : ℤ) =
      if present then word64.unsigned value.toInt else 0 := by
  split_ifs
  · exact toNat_toUInt64 value
  · rfl

/-- So for the lifetime with the request's `max-age`. -/
theorem toNat_cappedLifetime (request : CacheControl) (freshSec : UInt64) :
    ((if request.maxAgeSec ≠ -1 then min freshSec request.maxAgeSec.toUInt64
      else freshSec).toNat : ℤ) = cappedLifetime word64 request freshSec.toNat := by
  unfold cappedLifetime
  split_ifs
  · have hcap : word64.unsigned request.maxAgeSec.toInt = request.maxAgeSec.toUInt64.toNat :=
      (toNat_toUInt64 request.maxAgeSec).symm
    rw [toNat_min, hcap]
    omega
  · rfl

/-- So for `max-stale`. -/
theorem toNat_maxStale (p : Prepared) (request : CacheControl) :
    ((if !isResponseMustRevalidate p && request.maxStaleSec ≠ -1 then
      request.maxStaleSec.toUInt64 else 0).toNat : ℤ) = maxStale word64 p request := by
  unfold maxStale
  rw [toNat_directive]
  by_cases hmust : isResponseMustRevalidate p = false
  · simp [hmust]
  · simp [hmust]

/-- The comparison of the code is the condition over 64-bit words. -/
theorem fresh_word64_iff (poco : Poco) (request : CacheControl) (p : Prepared) :
    Fresh word64 p request poco ↔
      ∃ c, ageCondition poco request p = .ok c ∧ isFresh p c = true := by
  unfold Fresh ageCondition
  rw [freshnessLifetime_word64]
  -- a URL that does not parse has no lifetime, and the strategy ends
  cases calculateFreshnessLifetime poco p with
  | error e =>
    constructor
    · rintro ⟨-, lifetime, h, -⟩
      cases h
    · rintro ⟨c, h, -⟩
      cases h
  | ok freshSec =>
    set c : AgeCondition := {
      ageSec := calculateCacheResponseAge p
      minFreshSec := if request.minFreshSec ≠ -1 then request.minFreshSec.toUInt64 else 0
      freshSec :=
        if request.maxAgeSec ≠ -1 then min freshSec request.maxAgeSec.toUInt64 else freshSec
      maxStaleSec :=
        if !isResponseMustRevalidate p && request.maxStaleSec ≠ -1 then
          request.maxStaleSec.toUInt64
        else 0 } with hc
    -- the two sums as the code computes them, wrapped at `2 ^ 64`
    have hleft : ((c.ageSec + c.minFreshSec).toNat : ℤ) =
        unsigned64 (currentAge word64 p + minFresh word64 request) := by
      rw [toNat_add, hc, toNat_calculateCacheResponseAge, toNat_directive]
      unfold minFresh unsigned64
      omega
    have hright : ((c.freshSec + c.maxStaleSec).toNat : ℤ) =
        unsigned64 (cappedLifetime word64 request freshSec.toNat + maxStale word64 p request) := by
      rw [toNat_add, hc, toNat_cappedLifetime, toNat_maxStale]
    -- then the code compares them
    have hholds : c.holds = true ↔
        word64.unsigned (currentAge word64 p + minFresh word64 request) < word64.unsigned
          (cappedLifetime word64 request freshSec.toNat + maxStale word64 p request) := by
      show decide (c.ageSec + c.minFreshSec < c.freshSec + c.maxStaleSec) = true ↔
        unsigned64 _ < unsigned64 _
      rw [decide_eq_true_iff, UInt64.lt_iff_toNat_lt, ← hleft, ← hright]
      omega
    constructor
    · rintro ⟨hcache, lifetime, hlife, hlt⟩
      cases hlife
      refine ⟨c, rfl, ?_⟩
      rw [isFresh, hcache, hholds.mpr hlt]
      rfl
    · rintro ⟨c', hc', hfresh⟩
      cases hc'
      rw [isFresh, Bool.and_eq_true, Bool.not_eq_true'] at hfresh
      exact ⟨hfresh.1, freshSec.toNat, rfl, hholds.mp hfresh.2⟩

/-! ## When the code answers from the cache only what is fresh -/

/-- What the code answers from the cache is fresh in `word64`, so only a wrap can make the
difference. -/
theorem servesOnlyFresh_iff_not_wrapMakesFresh (poco : Poco) (request : Request)
    (response : Response) (now : UInt64) :
    ServesOnlyFresh poco request response now ↔
      ¬ WrapMakesFresh poco request.cacheControl (prepare poco response now) := by
  constructor
  · rintro hserves ⟨hword, hexact⟩
    obtain ⟨c, hc, hfresh⟩ := (fresh_word64_iff poco _ _).mp hword
    obtain ⟨warned, -, hrun⟩ := exec_resolve_fresh hc hfresh ⟨[]⟩
    exact hexact (hserves ⟨[]⟩ _ _ hrun rfl (by simp))
  · intro hwrap s strategy s' hrun hnet hcache
    by_contra hexact
    exact hwrap ⟨(fresh_word64_iff poco _ _).mpr (isFresh_of_resolve hrun hnet hcache), hexact⟩

/-! ### The times -/

/-- No difference of two times leaves a signed word. -/
structure DifferencesFit (p : Prepared) : Prop where
  date : ∀ date ∈ p.responseDate,
    Fits (p.cacheResponse.receivedResponseSec.toInt - date.epochTime.toInt)
  expires : ∀ expires ∈ p.expires,
    Fits (expires.epochTime.toInt - (responseSec p p.cacheResponse.receivedResponseSec).toInt)
  lastModified : ∀ lastModified ∈ p.lastModified,
    Fits ((responseSec p p.cacheResponse.sentRequestSec).toInt - lastModified.epochTime.toInt)

/-- The age has only the difference to the `Date` to suffer from. -/
theorem currentAge_word64 {p : Prepared} (hfit : DifferencesFit p) :
    currentAge word64 p = currentAge exact p := by
  have happarent : apparentReceivedAge word64 p = apparentReceivedAge exact p := by
    unfold apparentReceivedAge
    cases hdate : p.responseDate with
    | none => rfl
    | some date =>
      obtain ⟨hl, hu⟩ := hfit.date date hdate
      exact congrArg (max 0) (signed64_of_lt hl hu)
  unfold currentAge receivedAge
  rw [happarent]

/-- A difference that fits in a signed word, below 0 counted as 0. -/
theorem positive_of_fits {d : ℤ} (h : Fits d) :
    max 0 (word64.signed d) = unsigned64 (max 0 (exact.signed d)) ∧
      Fits (max 0 (exact.signed d)) := by
  obtain ⟨hl, hu⟩ := h
  show max 0 (signed64 d) = unsigned64 (max 0 d) ∧ -2 ^ 63 ≤ max 0 d ∧ max 0 d < 2 ^ 63
  rw [signed64_of_lt hl hu, unsigned64_of_lt (Int.le_max_left 0 d) (by omega)]
  omega

theorem positive_div_of_fits {d : ℤ} (h : Fits d) :
    max 0 (word64.signed d) / 10 = unsigned64 (max 0 (exact.signed d) / 10) ∧
      Fits (max 0 (exact.signed d) / 10) := by
  obtain ⟨hl, hu⟩ := h
  show max 0 (signed64 d) / 10 = unsigned64 (max 0 d / 10) ∧
    -2 ^ 63 ≤ max 0 d / 10 ∧ max 0 d / 10 < 2 ^ 63
  rw [signed64_of_lt hl hu, unsigned64_of_lt (by omega) (by omega)]
  omega

/-- A lifetime is a signed number, and the code counts it as an unsigned one. -/
theorem freshnessLifetime_of_fit {p : Prepared} (hfit : DifferencesFit p) (poco : Poco) :
    (∃ lifetime, freshnessLifetime exact p poco = .ok lifetime ∧
      freshnessLifetime word64 p poco = .ok (unsigned64 lifetime) ∧ Fits lifetime) ∨
    ∃ e, freshnessLifetime exact p poco = .error e ∧
      freshnessLifetime word64 p poco = .error e := by
  have hzero : Fits 0 := ⟨by decide, by decide⟩
  unfold freshnessLifetime
  by_cases hmax : responseMaxAgeSec p ≠ -1
  · rw [if_pos hmax, if_pos hmax]
    exact .inl ⟨_, rfl, rfl, fits_toInt _⟩
  rw [if_neg hmax, if_neg hmax]
  cases hexp : p.expires with
  | some expires =>
    obtain ⟨hword, hfits⟩ := positive_of_fits (hfit.expires expires hexp)
    exact .inl ⟨_, rfl, congrArg Except.ok hword, hfits⟩
  | none =>
    cases poco.parseUri p.cacheResponse.request.url with
    | error e => exact .inr ⟨e, rfl, rfl⟩
    | ok uri =>
      cases hlast : p.lastModified with
      | none => exact .inl ⟨0, rfl, rfl, hzero⟩
      | some lastModified =>
        obtain ⟨hword, hfits⟩ := positive_div_of_fits (hfit.lastModified lastModified hlast)
        by_cases hquery : uri.query = ""
        · exact .inl ⟨_, if_pos hquery, (if_pos hquery).trans (congrArg Except.ok hword), hfits⟩
        · exact .inl ⟨0, if_neg hquery, if_neg hquery, hzero⟩

/-! ### The directives -/

section
variable (request : CacheControl) (p : Prepared) (lifetime : ℤ)

/-- What the stored response has to last for. -/
def neededSec : ℤ := currentAge exact p + minFresh exact request

/-- What it lasts for. -/
def grantedSec : ℤ := cappedLifetime exact request lifetime + maxStale exact p request

/-- One of the two `max-age`s is negative and the other is not. -/
def OneNegative : Prop :=
  request.maxAgeSec ≠ -1 ∧ (lifetime < 0 ↔ 0 ≤ request.maxAgeSec.toInt)

instance : Decidable (OneNegative request lifetime) :=
  inferInstanceAs (Decidable (_ ∧ (_ ↔ _)))

/-- What it lasts for when a negative `max-age` gives way to one that is not. -/
def laxSec : ℤ :=
  if OneNegative request lifetime then
    max lifetime request.maxAgeSec.toInt + maxStale exact p request
  else grantedSec request p lifetime

end

/-- The first sum stands in a higher word than the second one, and behind it there. -/
def WrapsBelow (needed granted : ℤ) : Prop :=
  granted / 2 ^ 64 < needed / 2 ^ 64 ∧ needed % 2 ^ 64 < granted % 2 ^ 64

instance (needed granted : ℤ) : Decidable (WrapsBelow needed granted) :=
  inferInstanceAs (Decidable (_ ∧ _))

/-- In one word, and after one bound but before the other. -/
def StandsBetween (granted needed lax : ℤ) : Prop :=
  needed / 2 ^ 64 = lax / 2 ^ 64 ∧ granted ≤ needed ∧ needed < lax

/-- The inputs on which a wrap makes a stale response fresh: a sum wraps, or a `max-age` is lost
because it is negative. -/
def Misjudged (poco : Poco) (request : CacheControl) (p : Prepared) : Prop :=
  isResponseNoCache p = false ∧ ∃ lifetime, freshnessLifetime exact p poco = .ok lifetime ∧
    (WrapsBelow (neededSec request p) (laxSec request p lifetime) ∨
      StandsBetween (grantedSec request p lifetime) (neededSec request p)
        (laxSec request p lifetime))

/-- Whether `min-fresh` is negative does not matter in a word. -/
theorem minFresh_word64 (request : CacheControl) :
    unsigned64 (minFresh word64 request) = unsigned64 (minFresh exact request) := by
  unfold minFresh
  split_ifs with hne
  · exact unsigned64_unsigned64 _
  · rfl

/-- Nor whether `max-stale` is. -/
theorem maxStale_word64 (request : CacheControl) (p : Prepared) :
    unsigned64 (maxStale word64 p request) = unsigned64 (maxStale exact p request) := by
  unfold maxStale
  split_ifs with hne
  · exact unsigned64_unsigned64 _
  · rfl

/-- The two `max-age`s as the code counts them, reduced to a word at the end. -/
theorem cappedLifetime_word64 (request : CacheControl) {lifetime : ℤ} (h : Fits lifetime) :
    unsigned64 (cappedLifetime word64 request (unsigned64 lifetime)) =
      unsigned64 (if OneNegative request lifetime then max lifetime request.maxAgeSec.toInt
        else cappedLifetime exact request lifetime) := by
  have hmin := unsigned64_min h (fits_toInt request.maxAgeSec)
  unfold cappedLifetime
  by_cases hne : request.maxAgeSec ≠ -1
  · rw [if_pos hne, if_pos hne]
    refine hmin.trans (congrArg unsigned64 ?_)
    by_cases hone : lifetime < 0 ↔ 0 ≤ request.maxAgeSec.toInt
    · rw [if_pos hone, if_pos ⟨hne, hone⟩]
    · rw [if_neg hone, if_neg fun h => hone h.2]
      rfl
  · rw [if_neg hne, if_neg hne, if_neg fun h => hne h.1]
    exact unsigned64_unsigned64 lifetime

/-- The reduced sums are in order although the sums are not: the first one stands between the two
others, or in a higher word. -/
theorem wraps_or_between_iff {granted needed lax : ℤ} (hle : granted ≤ lax)
    (hlt : lax < granted + 2 ^ 64) :
    (unsigned64 needed < unsigned64 lax ∧ granted ≤ needed) ↔
      WrapsBelow needed lax ∨ StandsBetween granted needed lax := by
  unfold WrapsBelow StandsBetween unsigned64
  omega

/-- A `max-age` that is lost only makes the lifetime longer, by less than a word. -/
theorem laxSec_bounds (request : CacheControl) (p : Prepared) {lifetime : ℤ} (h : Fits lifetime) :
    grantedSec request p lifetime ≤ laxSec request p lifetime ∧
      laxSec request p lifetime < grantedSec request p lifetime + 2 ^ 64 := by
  obtain ⟨hl, hu⟩ := h
  obtain ⟨hcl, hcu⟩ := fits_toInt request.maxAgeSec
  unfold laxSec
  split_ifs with hone
  · have hcap : cappedLifetime exact request lifetime =
        min lifetime request.maxAgeSec.toInt := if_pos hone.1
    unfold grantedSec
    rw [hcap]
    omega
  · omega

/-- The right side of the comparison. -/
theorem unsigned64_granted (request : CacheControl) (p : Prepared) {lifetime : ℤ}
    (h : Fits lifetime) :
    unsigned64 (cappedLifetime word64 request (unsigned64 lifetime) + maxStale word64 p request) =
      unsigned64 (laxSec request p lifetime) := by
  have hlax : laxSec request p lifetime =
      (if OneNegative request lifetime then max lifetime request.maxAgeSec.toInt
        else cappedLifetime exact request lifetime) + maxStale exact p request := by
    unfold laxSec grantedSec
    split_ifs with hone
    · rfl
    · rfl
  rw [hlax]
  exact unsigned64_add (cappedLifetime_word64 request h) (maxStale_word64 request p)

/-- With the lifetime known the condition is a comparison. -/
theorem fresh_of_lifetime {arith : Arithmetic} {poco : Poco} {request : CacheControl} {p : Prepared}
    {lifetime : ℤ} (h : freshnessLifetime arith p poco = .ok lifetime) :
    Fresh arith p request poco ↔ isResponseNoCache p = false ∧
      arith.unsigned (currentAge arith p + minFresh arith request) <
        arith.unsigned (cappedLifetime arith request lifetime + maxStale arith p request) := by
  unfold Fresh
  constructor
  · rintro ⟨hcache, lifetime', hlife, hlt⟩
    cases h.symm.trans hlife
    exact ⟨hcache, hlt⟩
  · rintro ⟨hcache, hlt⟩
    exact ⟨hcache, lifetime, h, hlt⟩

/-- An input is misjudged by its one lifetime. -/
theorem misjudged_of_lifetime {request : CacheControl} {p : Prepared} {poco : Poco} {lifetime : ℤ}
    (h : freshnessLifetime exact p poco = .ok lifetime) :
    Misjudged poco request p ↔ isResponseNoCache p = false ∧
      (WrapsBelow (neededSec request p) (laxSec request p lifetime) ∨
        StandsBetween (grantedSec request p lifetime) (neededSec request p)
          (laxSec request p lifetime)) := by
  constructor
  · rintro ⟨hcache, lifetime', hlife, hwrong⟩
    cases h.symm.trans hlife
    exact ⟨hcache, hwrong⟩
  · rintro ⟨hcache, hwrong⟩
    exact ⟨hcache, lifetime, h, hwrong⟩

/-- Among the inputs whose times fit, the misjudged ones are those on which a wrap makes a stale
response fresh. -/
theorem wrapMakesFresh_iff_misjudged (poco : Poco) (request : CacheControl) {p : Prepared}
    (hfit : DifferencesFit p) : WrapMakesFresh poco request p ↔ Misjudged poco request p := by
  rcases freshnessLifetime_of_fit hfit poco with ⟨lifetime, hexact, hword, hfits⟩ |
    ⟨e, hexact, hword⟩
  -- there is a lifetime, and both sums are known numbers
  · have hneeded : unsigned64 (currentAge word64 p + minFresh word64 request) =
        unsigned64 (neededSec request p) := by
      rw [currentAge_word64 hfit]
      exact unsigned64_add rfl (minFresh_word64 request)
    have hfresh64 : Fresh word64 p request poco ↔ isResponseNoCache p = false ∧
        unsigned64 (neededSec request p) < unsigned64 (laxSec request p lifetime) := by
      rw [fresh_of_lifetime hword, ← hneeded, ← unsigned64_granted request p hfits]
      rfl
    have hfresh : Fresh exact p request poco ↔ isResponseNoCache p = false ∧
        neededSec request p < grantedSec request p lifetime := fresh_of_lifetime hexact
    -- what is left is the comparison of two quotients by `2 ^ 64`
    obtain ⟨hle, hlt⟩ := laxSec_bounds request p hfits
    unfold WrapMakesFresh
    rw [misjudged_of_lifetime hexact, hfresh64, hfresh, ← wraps_or_between_iff hle hlt]
    constructor
    · rintro ⟨⟨hcache, hword⟩, hstale⟩
      exact ⟨hcache, hword, Int.not_lt.mp fun hlt => hstale ⟨hcache, hlt⟩⟩
    · rintro ⟨hcache, hword, hstale⟩
      exact ⟨⟨hcache, hword⟩, fun hfresh => Int.not_lt.mpr hstale hfresh.2⟩
  · -- without a lifetime there is neither
    constructor
    · rintro ⟨⟨-, lifetime, hlife, -⟩, -⟩
      cases hword.symm.trans hlife
    · rintro ⟨-, lifetime, hlife, -⟩
      cases hexact.symm.trans hlife

/-! ### Inputs without a wrap -/

/-- Times in order, no directive below -1, and an age that fits in 64 bits together with
`min-fresh`. -/
structure NoWrap (request : CacheControl) (p : Prepared) : Prop where
  sent_le_received :
    p.cacheResponse.sentRequestSec.toInt ≤ p.cacheResponse.receivedResponseSec.toInt
  received_le_now : p.cacheResponse.receivedResponseSec.toInt ≤ p.nowAtEpoch.toNat
  responseMaxAge : -1 ≤ (responseMaxAgeSec p).toInt
  requestMaxAge : -1 ≤ request.maxAgeSec.toInt
  minFresh : -1 ≤ request.minFreshSec.toInt
  maxStale : -1 ≤ request.maxStaleSec.toInt
  needed_lt : neededSec request p < 2 ^ 64

/-- A directive that is present and not below -1 is not negative. -/
theorem directive_nonneg {value : Int64} (hl : -1 ≤ value.toInt) (hne : value ≠ -1) :
    0 ≤ value.toInt := by
  have hne' : value.toInt ≠ -1 := fun heq => hne (Int64.toInt_inj.mp heq)
  omega

namespace NoWrap

variable {request : CacheControl} {p : Prepared} (h : NoWrap request p)
include h

/-- The age is not negative when the times are in order. -/
theorem needed_nonneg : 0 ≤ neededSec request p := by
  have hsent := h.sent_le_received
  have hnow := h.received_le_now
  have happarent : 0 ≤ apparentReceivedAge exact p := by
    unfold apparentReceivedAge
    cases p.responseDate with
    | none => exact Int.le_refl 0
    | some date => exact Int.le_max_left 0 _
  have hage : apparentReceivedAge exact p ≤ receivedAge exact p := by
    unfold receivedAge
    cases p.ageSec with
    | none => exact Int.le_refl _
    | some ageSec => exact Int.le_max_left _ _
  have hmin : 0 ≤ HttpCacheStrategy.minFresh exact request := by
    unfold HttpCacheStrategy.minFresh
    split_ifs with hne
    · exact directive_nonneg h.minFresh hne
    · exact Int.le_refl 0
  unfold neededSec currentAge
  omega

theorem maxStale_nonneg : 0 ≤ HttpCacheStrategy.maxStale exact p request := by
  unfold HttpCacheStrategy.maxStale
  split_ifs with hne
  · exact directive_nonneg h.maxStale hne.2
  · exact Int.le_refl 0

/-- Only a `max-age` can be a negative lifetime. -/
theorem lifetime_nonneg {poco : Poco} {lifetime : ℤ}
    (hlife : freshnessLifetime exact p poco = .ok lifetime) : 0 ≤ lifetime := by
  unfold freshnessLifetime at hlife
  by_cases hmax : responseMaxAgeSec p ≠ -1
  · rw [if_pos hmax] at hlife
    cases hlife
    exact directive_nonneg h.responseMaxAge hmax
  rw [if_neg hmax] at hlife
  cases hexp : p.expires with
  | some expires =>
    rw [hexp] at hlife
    cases hlife
    exact Int.le_max_left 0 _
  | none =>
    rw [hexp] at hlife
    cases huri : poco.parseUri p.cacheResponse.request.url with
    | error e =>
      rw [huri] at hlife
      cases hlife
    | ok uri =>
      rw [huri] at hlife
      cases hlast : p.lastModified with
      | none =>
        rw [hlast] at hlife
        cases hlife
        exact Int.le_refl 0
      | some lastModified =>
        rw [hlast] at hlife
        by_cases hquery : uri.query = ""
        · cases (if_pos hquery).symm.trans hlife
          exact Int.ediv_nonneg (Int.le_max_left 0 _) (by decide)
        · cases (if_neg hquery).symm.trans hlife
          exact Int.le_refl 0

/-- Both sums stand in the lowest word or the second one above it, and no `max-age` is lost. -/
theorem not_misjudged (poco : Poco) : ¬Misjudged poco request p := by
  rintro ⟨-, lifetime, hlife, hwrong⟩
  have hneeded := h.needed_nonneg
  have hlt := h.needed_lt
  have hstale := h.maxStale_nonneg
  have hlifetime := h.lifetime_nonneg hlife
  have hlax : laxSec request p lifetime = grantedSec request p lifetime := by
    refine if_neg fun hone => ?_
    have hcap := directive_nonneg h.requestMaxAge hone.1
    have hneg := hone.2.mpr hcap
    omega
  have hcapped : 0 ≤ cappedLifetime exact request lifetime := by
    unfold cappedLifetime
    split_ifs with hne
    · exact Int.le_min.mpr ⟨hlifetime, directive_nonneg h.requestMaxAge hne⟩
    · exact hlifetime
  have hgranted : 0 ≤ grantedSec request p lifetime := Int.add_nonneg hcapped hstale
  rw [hlax] at hwrong
  unfold WrapsBelow StandsBetween at hwrong
  omega

end NoWrap

/-- **Freshness.** Where no difference of times overflows, the code answers from the cache only
what is fresh over the integers if and only if the inputs are not misjudged; they are not where
nothing wraps. -/
theorem servesOnlyFresh_iff (poco : Poco) (request : Request) (response : Response)
    (now : UInt64) (hfit : DifferencesFit (prepare poco response now)) :
    (ServesOnlyFresh poco request response now ↔
      ¬Misjudged poco request.cacheControl (prepare poco response now)) ∧
    (NoWrap request.cacheControl (prepare poco response now) →
      ServesOnlyFresh poco request response now) := by
  have hiff : ServesOnlyFresh poco request response now ↔
      ¬Misjudged poco request.cacheControl (prepare poco response now) := by
    rw [servesOnlyFresh_iff_not_wrapMakesFresh, wrapMakesFresh_iff_misjudged poco _ hfit]
  exact ⟨hiff, fun hwrap => hiff.mpr (hwrap.not_misjudged poco)⟩

/-- A request without directives. -/
def plainRequest : Request where
  method := .get
  url := "http://example.com/"
  tag := none
  headers := 0
  cacheControl := {}
  body := none

/-- A stored response with a `max-age`, sent and received at second 0. -/
def maxAgeResponse (maxAgeSec : Int64) : Response where
  request := plainRequest
  cacheControl := some { maxAgeSec := maxAgeSec }

theorem differencesFit_maxAge (maxAgeSec : Int64) (now : UInt64) :
    DifferencesFit (prepare Poco.plain (maxAgeResponse maxAgeSec) now) where
  date date hdate := by
    cases (show none = some date from hdate)
  expires expires hexpires := by
    cases (show none = some expires from hexpires)
  lastModified lastModified hlast := by
    cases (show none = some lastModified from hlast)

theorem servesOnlyFresh_maxAge_60 :
    ServesOnlyFresh Poco.plain plainRequest (maxAgeResponse 60) 30 :=
  (servesOnlyFresh_iff Poco.plain plainRequest (maxAgeResponse 60) 30
    (differencesFit_maxAge 60 30)).2 {
    sent_le_received := by decide
    received_le_now := by decide
    responseMaxAge := by decide
    requestMaxAge := by decide
    minFresh := by decide
    maxStale := by decide
    needed_lt := by decide }

/-- A response with `max-age=-5` counts as fresh a thousand seconds later. -/
theorem not_servesOnlyFresh_maxAge_neg :
    ¬ ServesOnlyFresh Poco.plain plainRequest (maxAgeResponse (-5)) 1000 := by
  rw [servesOnlyFresh_iff_not_wrapMakesFresh, not_not,
    wrapMakesFresh_iff_misjudged Poco.plain _ (differencesFit_maxAge (-5) 1000)]
  -- the lifetime of -5 seconds stands in the word below that of the age
  exact ⟨by decide, -5, by rfl, .inl (by decide)⟩

end EasyHttp.HttpCacheStrategy
