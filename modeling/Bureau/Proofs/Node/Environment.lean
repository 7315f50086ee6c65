import Bureau.Node.CommandLine
import Bureau.Proofs.Money.PairList
import Bureau.Proofs.Text.Digits

/-!
Settings from an environment. A variable takes effect if its text is one of its type, and is ignored if
not; only a number of seconds or milliseconds can be one of its type and still too large for a length of
time, and this is when no settings come about at all.
-/

set_option autoImplicit false

namespace Bureau

open Text

/-! ### Lengths of time -/

private theorem Duration.seconds?_eq_some_iff {n : Int} {d : Duration} :
    Duration.seconds? n = some d ↔ n.natAbs ≤ 9223372036854775 ∧ d = ⟨n * 1000000000⟩ := by
  have hunit : Duration.ofMillis (n * 1000) = ⟨n * 1000000000⟩ := by
    rw [Duration.ofMillis, Int.mul_assoc]
    rfl
  rw [Duration.seconds?, Option.ite_none_right_eq_some, hunit, Option.some.injEq]
  exact and_congr_right fun _ => eq_comm

private theorem Duration.millis?_eq_some_iff {n : Int} {d : Duration} :
    Duration.millis? n = some d ↔ n.natAbs ≤ 9223372036854775807 ∧ d = ⟨n * 1000000⟩ := by
  have hrange : -(twoTo 63 : Int) < n ∧ n < twoTo 63 ↔ n.natAbs ≤ 9223372036854775807 := by
    have hpow : (twoTo 63 : Int) = 9223372036854775808 := by decide
    omega
  rw [Duration.millis?, Option.ite_none_right_eq_some, Option.some.injEq, hrange]
  exact and_congr_right fun _ => eq_comm

/-- The variables that hold a length of time. -/
inductive TimeVariable where
  | rateLife
  | defaultLock
  | maxLock
  | storeTimeout
  | reaperInterval

namespace TimeVariable

def name : TimeVariable → String
  | rateLife => "RATE_CACHE_TTL_SECS"
  | defaultLock => "RATE_LOCK_DEFAULT_SECS"
  | maxLock => "RATE_LOCK_MAX_SECS"
  | storeTimeout => "STORE_TIMEOUT_MS"
  | reaperInterval => "REAPER_INTERVAL_MS"

def measure : TimeVariable → Int → Option Duration
  | rateLife | defaultLock | maxLock => Duration.seconds?
  | storeTimeout | reaperInterval => Duration.millis?

def limit : TimeVariable → Nat
  | rateLife | defaultLock | maxLock => 9223372036854775
  | storeTimeout | reaperInterval => 9223372036854775807

def unit : TimeVariable → Int
  | rateLife | defaultLock | maxLock => 1000000000
  | storeTimeout | reaperInterval => 1000000

/-- The part of a text that is read: white space at the ends does not count for most variables. -/
def read : TimeVariable → String → List Char
  | reaperInterval, text => text.toList
  | _, text => trim text.toList

def setting : TimeVariable → NodeSettings → Duration
  | rateLife, s => s.policy.rateLife
  | defaultLock, s => s.policy.lockTerms.defaultLength
  | maxLock, s => s.policy.lockTerms.maxLength
  | storeTimeout, s => s.policy.storeTimeout
  | reaperInterval, s => s.reaperInterval

variable {v : TimeVariable} {env : Environment} {n : Int} {d : Duration}

private theorem measure_eq_some_iff : v.measure n = some d ↔ n.natAbs ≤ v.limit ∧ d = ⟨n * v.unit⟩ := by
  cases v
  · exact Duration.seconds?_eq_some_iff
  · exact Duration.seconds?_eq_some_iff
  · exact Duration.seconds?_eq_some_iff
  · exact Duration.millis?_eq_some_iff
  · exact Duration.millis?_eq_some_iff

/-- A variable holds a number if its text spells it and it fits 64 bits. -/
def Holds (v : TimeVariable) (env : Environment) (n : Int) : Prop :=
  ∃ text, env v.name = some text ∧ SpellsInt (v.read text) n ∧
    -(twoTo 63 : Int) ≤ n ∧ n < twoTo 63

/-- A variable holds a number that is too large for a length of its unit. -/
def Overflows (v : TimeVariable) (env : Environment) : Prop :=
  ∃ n, v.Holds env n ∧ v.limit < n.natAbs

def number? (v : TimeVariable) (env : Environment) : Option Int :=
  (env v.name).bind fun text => readInt64? (v.read text)

/-- The length that a variable asks for, or the one that is set without it. -/
def length (v : TimeVariable) (env : Environment) : Except Crash Duration :=
  Environment.lengthOf (v.number? env) v.measure (v.setting NodeSettings.standard)

private theorem number?_eq_some_iff : v.number? env = some n ↔ v.Holds env n := by
  simp only [number?, Option.bind_eq_some_iff, readInt64?_eq_some_iff, Holds]

private theorem length_of_overflows (h : v.Overflows env) : v.length env = .error .duration := by
  obtain ⟨n, hn, hlarge⟩ := h
  have hmeasure : v.measure n = none := by
    cases hd : v.measure n with
    | none => rfl
    | some d => exact absurd (measure_eq_some_iff.mp hd).1 (Nat.not_le.mpr hlarge)
  rw [length, number?_eq_some_iff.mpr hn, Environment.lengthOf, hmeasure]
  rfl

end TimeVariable

/-! ### Settings -/

/-- A setting has the value that is asked for, and the default if none is. -/
def Follows {α : Type} (asked : α → Prop) (value default : α) : Prop :=
  (∀ a, asked a → value = a) ∧ ((∀ a, ¬ asked a) → value = default)

private theorem follows_getD {α : Type} {asked : α → Prop} {asked? : Option α}
    (h : ∀ a, asked? = some a ↔ asked a) (default : α) : Follows asked (asked?.getD default) default := by
  refine ⟨fun a ha => ?_, fun hnone => ?_⟩
  · rw [(h a).mpr ha]
    rfl
  · cases hasked : asked? with
    | none => rfl
    | some a => exact absurd ((h a).mp hasked) (hnone a)

private theorem TimeVariable.exists_length {v : TimeVariable} {env : Environment}
    (h : ¬ v.Overflows env) :
    ∃ d, v.length env = .ok d ∧
      Follows (fun d => ∃ n, v.Holds env n ∧ d = ⟨n * v.unit⟩) d (v.setting NodeSettings.standard) := by
  cases hnumber : v.number? env with
  | none =>
      refine ⟨_, by rw [length, hnumber, Environment.lengthOf], ?_, fun _ => rfl⟩
      rintro d ⟨n, hn, -⟩
      rw [number?_eq_some_iff.mpr hn] at hnumber
      cases hnumber
  | some n =>
      have hn := number?_eq_some_iff.mp hnumber
      have hsmall : n.natAbs ≤ v.limit := Nat.not_lt.mp fun hlarge => h ⟨n, hn, hlarge⟩
      have hmeasure := measure_eq_some_iff.mpr ⟨hsmall, rfl⟩
      refine ⟨⟨n * v.unit⟩, ?_, ?_, fun hnone => absurd ⟨n, hn, rfl⟩ (hnone _)⟩
      · rw [length, hnumber, Environment.lengthOf, hmeasure]
        rfl
      · rintro d ⟨m, hm, rfl⟩
        rw [number?_eq_some_iff.mpr hm] at hnumber
        cases hnumber
        rfl

namespace NodeSettings

/-- Settings in which every variable with a text of its type has taken effect, all else being as it is
without an environment. -/
structure IsAskedBy (s : NodeSettings) (env : Environment) : Prop where
  times : ∀ v : TimeVariable, Follows (fun d => ∃ n, v.Holds env n ∧ d = ⟨n * v.unit⟩)
    (v.setting s) (v.setting standard)
  margin : Follows (fun m => ∃ text, env "DEFAULT_MARGIN_PERCENT" = some text ∧
    Decimal.ofChars? (trim text.toList) = some m) s.policy.defaultMargin standard.policy.defaultMargin
  seed : Follows (fun seed? => ∃ text seed, env "RATE_SEED" = some text ∧
    SpellsNat text.toList (UInt64.toNat seed) ∧ seed? = some seed) s.seed standard.seed
  feedPairs : Follows (fun ps => ∃ text, env "STREAM_PAIRS" = some text ∧
    List.Forall₂ CurrencyPair.SpellsPair (CurrencyPair.segments text.toList) ps)
    s.feedPairs standard.feedPairs
  nodeId : s.nodeId = env "NODE_ID"
  corridorsPath : s.corridorsPath = env "CORRIDORS_PATH"
  jsonLogs : s.jsonLogs = (env "LOG_FORMAT").any isJson
  statsInterval : s.statsInterval = standard.statsInterval
  feedInterval : s.policy.feedInterval = standard.policy.feedInterval
  maxGrace : s.policy.lockTerms.maxGrace = standard.policy.lockTerms.maxGrace

variable {env : Environment} {s : NodeSettings}

/-- The settings of an environment whose lengths of time are known. -/
def withLengths (env : Environment) (length : TimeVariable → Duration) : NodeSettings :=
  { standard with
    policy := { Policy.standard with
      rateLife := length .rateLife
      defaultMargin := (env.read? Decimal.ofChars? "DEFAULT_MARGIN_PERCENT").getD
        Policy.standard.defaultMargin
      storeTimeout := length .storeTimeout
      lockTerms := { Policy.standard.lockTerms with
        defaultLength := length .defaultLock
        maxLength := length .maxLock } }
    reaperInterval := length .reaperInterval
    nodeId := env "NODE_ID"
    corridorsPath := env "CORRIDORS_PATH"
    seed := (env "RATE_SEED").bind parseSeed?
    feedPairs := ((env "STREAM_PAIRS").bind fun text =>
      (CurrencyPair.parseList text).toOption).getD standard.feedPairs
    jsonLogs := (env "LOG_FORMAT").any isJson }

/-- The lengths of time come first; nothing else can go wrong. -/
theorem ofEnvironment_eq (env : Environment) :
    ofEnvironment env = (do
      let rateLife ← TimeVariable.rateLife.length env
      let defaultLock ← TimeVariable.defaultLock.length env
      let maxLock ← TimeVariable.maxLock.length env
      let storeTimeout ← TimeVariable.storeTimeout.length env
      let reaperInterval ← TimeVariable.reaperInterval.length env
      return withLengths env fun
        | .rateLife => rateLife
        | .defaultLock => defaultLock
        | .maxLock => maxLock
        | .storeTimeout => storeTimeout
        | .reaperInterval => reaperInterval) := by
  simp only [ofEnvironment, Policy.ofEnvironment, bind_assoc, pure_bind]
  rfl

private theorem exists_length_of_ofEnvironment (h : ofEnvironment env = .ok s) (v : TimeVariable) :
    ∃ d, v.length env = .ok d := by
  rw [ofEnvironment_eq] at h
  obtain ⟨rateLife, hrateLife, h⟩ := Attempt.exists_of_bind_eq_ok h
  obtain ⟨defaultLock, hdefaultLock, h⟩ := Attempt.exists_of_bind_eq_ok h
  obtain ⟨maxLock, hmaxLock, h⟩ := Attempt.exists_of_bind_eq_ok h
  obtain ⟨storeTimeout, hstoreTimeout, h⟩ := Attempt.exists_of_bind_eq_ok h
  obtain ⟨reaperInterval, hreaperInterval, -⟩ := Attempt.exists_of_bind_eq_ok h
  cases v
  · exact ⟨_, hrateLife⟩
  · exact ⟨_, hdefaultLock⟩
  · exact ⟨_, hmaxLock⟩
  · exact ⟨_, hstoreTimeout⟩
  · exact ⟨_, hreaperInterval⟩

private theorem ofEnvironment_of_lengths {length : TimeVariable → Duration}
    (h : ∀ v : TimeVariable, v.length env = .ok (length v)) :
    ofEnvironment env = .ok (withLengths env length) := by
  rw [ofEnvironment_eq, h, h, h, h, h]
  rfl

private theorem exists_crash_of_overflows {v : TimeVariable} (h : v.Overflows env) :
    ∃ crash, ofEnvironment env = .error crash := by
  cases hsettings : ofEnvironment env with
  | error crash => exact ⟨crash, rfl⟩
  | ok s =>
      obtain ⟨d, hd⟩ := exists_length_of_ofEnvironment hsettings v
      rw [TimeVariable.length_of_overflows h] at hd
      cases hd

private theorem parseSeed?_eq_some_iff {text : String} {seed : UInt64} :
    parseSeed? text = some seed ↔ SpellsNat text.toList seed.toNat := by
  rw [parseSeed?, Option.map_eq_some_iff]
  constructor
  · rintro ⟨n, hn, rfl⟩
    obtain ⟨hspells, hlt⟩ := readNat?_eq_some_iff.mp hn
    rwa [UInt64.toNat_ofNat', Nat.mod_eq_of_lt (show n < 2 ^ 64 from hlt)]
  · intro h
    exact ⟨_, readNat?_eq_some_iff.mpr ⟨h, seed.toNat_lt⟩, UInt64.ofNat_toNat⟩

private theorem isAskedBy_withLengths {length : TimeVariable → Duration}
    (h : ∀ v : TimeVariable, Follows (fun d => ∃ n, v.Holds env n ∧ d = ⟨n * v.unit⟩) (length v)
      (v.setting standard)) : (withLengths env length).IsAskedBy env where
  times v := by
    have hv := h v
    cases v <;> exact hv
  margin := follows_getD (fun m => Option.bind_eq_some_iff) _
  seed := by
    refine ⟨?_, fun hnone => ?_⟩
    · rintro _ ⟨text, seed, htext, hseed, rfl⟩
      exact Option.bind_eq_some_iff.mpr ⟨text, htext, parseSeed?_eq_some_iff.mpr hseed⟩
    · refine Option.bind_eq_none_iff.mpr fun text htext => ?_
      refine Option.eq_none_iff_forall_ne_some.mpr fun seed hseed => ?_
      exact hnone _ ⟨text, seed, htext, parseSeed?_eq_some_iff.mp hseed, rfl⟩
  feedPairs := by
    refine follows_getD (fun ps => Option.bind_eq_some_iff.trans ?_) _
    refine exists_congr fun text => and_congr_right fun _ => ?_
    rw [← CurrencyPair.parseList_eq_ok_iff]
    cases CurrencyPair.parseList text with
    | error e => exact ⟨nofun, nofun⟩
    | ok qs => exact ⟨fun h => congrArg _ (Option.some.inj h), fun h => congrArg _ (Except.ok.inj h)⟩
  nodeId := rfl
  corridorsPath := rfl
  jsonLogs := rfl
  statsInterval := rfl
  feedInterval := rfl
  maxGrace := rfl

private theorem exists_ofEnvironment (h : ∀ v : TimeVariable, ¬ v.Overflows env) :
    ∃ s, ofEnvironment env = .ok s ∧ s.IsAskedBy env := by
  choose length hlength hfollows using fun v => TimeVariable.exists_length (h v)
  exact ⟨_, ofEnvironment_of_lengths hlength, isAskedBy_withLengths hfollows⟩

/-- An environment comes to settings exactly if no variable holds a number of seconds or milliseconds
that fits 64 bits and is still too large for a length of time. Then every variable whose text is one of
its type has taken effect, and all else is as it is without an environment; so a bad text is ignored,
or a node with these settings is refused with a message. A number that is too large halts the start of
the node instead, whatever its command line. -/
theorem settles_iff_not_overflows (env : Environment) :
    ((∃ s, ofEnvironment env = .ok s) ↔ ∀ v : TimeVariable, ¬ v.Overflows env) ∧
    (∀ s, ofEnvironment env = .ok s → s.IsAskedBy env) ∧
    ∀ l : CommandLine,
      ((∀ v : TimeVariable, ¬ v.Overflows env) →
        (∃ s, l.settings env = .ok s) ∨ ∃ reason, l.settings env = .error (.settings reason)) ∧
      ∀ v : TimeVariable, v.Overflows env →
        ∃ crash, l.settings env = .error (.halt (.crash crash)) := by
  have hsettles : (∃ s, ofEnvironment env = .ok s) ↔ ∀ v : TimeVariable, ¬ v.Overflows env := by
    constructor
    · rintro ⟨s, hs⟩ v hv
      obtain ⟨crash, hcrash⟩ := exists_crash_of_overflows hv
      rw [hs] at hcrash
      cases hcrash
    · intro h
      obtain ⟨s, hs, -⟩ := exists_ofEnvironment h
      exact ⟨s, hs⟩
  refine ⟨hsettles, fun s hs => ?_, fun l => ⟨fun h => ?_, fun v hv => ?_⟩⟩
  · obtain ⟨t, ht, hasked⟩ := exists_ofEnvironment (hsettles.mp ⟨s, hs⟩)
    rw [hs] at ht
    cases ht
    exact hasked
  · obtain ⟨s, hs⟩ := hsettles.mpr h
    rw [CommandLine.settings, hs]
    cases hvalid : (l.override s).validate with
    | ok u => exact .inl ⟨l.override s, by simp only [hvalid]⟩
    | error reason => exact .inr ⟨reason, by simp only [hvalid]⟩
  · obtain ⟨crash, hcrash⟩ := exists_crash_of_overflows hv
    exact ⟨crash, by rw [CommandLine.settings, hcrash]⟩

/-- A minute of life for rates, with white space around it. -/
theorem settles_iff_not_overflows_minute :
    let env : Environment := fun name => if name = "RATE_CACHE_TTL_SECS" then some " 60 " else none
    ∃ s, ofEnvironment env = .ok s ∧ s.policy.rateLife = ⟨60000000000⟩ ∧
      s.policy.storeTimeout = standard.policy.storeTimeout := by
  intro env
  have hsixty : TimeVariable.rateLife.number? env = some 60 := by decide +kernel
  have hsmall : ∀ v : TimeVariable, ¬ v.Overflows env := by
    rintro v ⟨n, hn, hlarge⟩
    have hnumber := TimeVariable.number?_eq_some_iff.mpr hn
    cases v
    case rateLife =>
      rw [hsixty] at hnumber
      cases hnumber
      exact absurd hlarge (by decide)
    all_goals cases hnumber
  obtain ⟨hsettles, hasked, -⟩ := settles_iff_not_overflows env
  obtain ⟨s, hs⟩ := hsettles.mpr hsmall
  refine ⟨s, hs, ?_, ?_⟩
  · exact ((hasked s hs).times .rateLife).1 _ ⟨60, TimeVariable.number?_eq_some_iff.mp hsixty, rfl⟩
  · refine ((hasked s hs).times .storeTimeout).2 ?_
    rintro d ⟨n, hn, -⟩
    cases TimeVariable.number?_eq_some_iff.mpr hn

/-- The largest number of 64 bits is one of the type of a number of seconds. -/
theorem crashes_with_endless_life :
    let env : Environment := fun name =>
      if name = "RATE_CACHE_TTL_SECS" then some "9223372036854775807" else none
    TimeVariable.rateLife.Holds env 9223372036854775807 ∧
      ofEnvironment env = .error .duration ∧ ¬ ∃ s, ofEnvironment env = .ok s := by
  intro env
  have hnumber : TimeVariable.rateLife.number? env = some 9223372036854775807 := by decide +kernel
  have hholds := TimeVariable.number?_eq_some_iff.mp hnumber
  have hcrash : ofEnvironment env = .error .duration := by
    rw [ofEnvironment_eq, TimeVariable.length_of_overflows ⟨_, hholds, by decide⟩]
    rfl
  refine ⟨hholds, hcrash, ?_⟩
  rintro ⟨s, hs⟩
  rw [hcrash] at hs
  cases hs

end NodeSettings

end Bureau
