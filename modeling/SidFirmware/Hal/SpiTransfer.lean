import SidFirmware.Hal.BusInit

/-! `u32Hal_SPI_Transfer` of `HAL/HAL_SPI.c`. Completion events may interrupt the call anywhere;
that of an earlier transfer looks like the call's own. -/
namespace SidFirmware.HalBus

/-- A completion event, with whether it is that of the transfer of the call it interrupts. -/
structure SpiEvt where
  own : Bool
deriving DecidableEq

/-- `vSpiEventHandler`. -/
def spiEventHandler (s : Spi) (_ : SpiEvt) : Spi := { s with xferDone := Flag.set }

/-- The events that interrupt a call: from its store to the flag until the driver's answer,
before each test of the flag, and behind the loop. -/
structure Interrupts where
  onSubmit : List SpiEvt
  beforeTest : Nat → List SpiEvt
  onReturn : List SpiEvt

structure Poll where
  spi : Spi
  delivered : List SpiEvt

def Poll.deliver (p : Poll) (es : List SpiEvt) : Poll :=
  ⟨es.foldl spiEventHandler p.spi, p.delivered ++ es⟩

/-- The loop that waits for the flag from its test `i` on, and the time it leaves. -/
def waitLoop (ints : Interrupts) (timeout : Int) (i : Nat) (p : Poll) : Poll × Int :=
  let p := p.deliver (ints.beforeTest i)
  if p.spi.xferDone = Flag.clear ∧ timeout > 0 then waitLoop ints (timeout - 1) (i + 1) p
  else (p, timeout)
termination_by timeout.toNat

/-- `l_s32HwTimeout`. -/
def hwTimeout : Nat := 10000

/-- `u32Hal_SPI_Transfer`, with what was delivered until its loop ended. The driver answers
`transfer`; the fuel is that of an initialiser called by the error macro. -/
def halSpiTransfer (fuel : Nat) (results : Results) (transfer : ErrCode) (ints : Interrupts) (s : Spi) :
    Option (Poll × ErrCode) :=
  if s.initialized = Flag.set then
    let p := (Poll.mk { s with xferDone := Flag.clear } []).deliver ints.onSubmit
    (halSpiErrorCheck (halSpiInit results fuel) transfer p.spi).map fun s =>
      let w := waitLoop ints hwTimeout 0 ⟨s, p.delivered⟩
      (w.1, if w.2 < 0 then nrfErrorTimeout else transfer)
  else some (⟨s, []⟩, nrfErrorForbidden)

/-- What test `k` of the flag sees. -/
def Interrupts.seen (ints : Interrupts) : Nat → List SpiEvt
  | 0 => ints.onSubmit ++ ints.beforeTest 0
  | k + 1 => ints.seen k ++ ints.beforeTest (k + 1)

/-- The answer is the truth: success only for a transfer that was accepted and completed, and a
timeout for a loop that gives up. -/
structure Truthful (results : Results) (transfer : ErrCode) (ints : Interrupts) (s : Spi) : Prop where
  sound : ∀ fuel r, halSpiTransfer fuel results transfer ints s = some r → r.2 = nrfSuccess →
    s.initialized = Flag.set ∧ transfer = nrfSuccess ∧ ⟨true⟩ ∈ r.1.delivered ++ ints.onReturn
  timeout : ∀ fuel r, halSpiTransfer fuel results transfer ints s = some r → s.initialized = Flag.set →
    r.1.spi.xferDone = Flag.clear → r.2 = nrfErrorTimeout

/-- The first test that sees an event comes before the time is over, and the event of an accepted
transfer is there or comes before the call returns. A refused transfer may also pass on a timeout
of the driver, or never return from the initialiser. -/
def InTime (results : Results) (transfer : ErrCode) (ints : Interrupts) (s : Spi) : Prop :=
  if transfer = nrfSuccess then
    ∃ k ≤ hwTimeout, ints.seen k ≠ [] ∧ (∀ j < k, ints.seen j = []) ∧
      ⟨true⟩ ∈ ints.seen k ++ ints.onReturn
  else
    (∃ k ≤ hwTimeout, ints.seen k ≠ []) ∨ transfer = nrfErrorTimeout ∨
      ∀ k, results (s.inits + k) ≠ nrfSuccess

def Poll.Counts (p : Poll) : Prop := p.spi.xferDone = Flag.clear ↔ p.delivered = []

theorem foldl_handler_xferDone (s : Spi) (es : List SpiEvt) :
    (es.foldl spiEventHandler s).xferDone = Flag.clear ↔ s.xferDone = Flag.clear ∧ es = [] := by
  induction es generalizing s with
  | nil => simp
  | cons e es ih =>
    rw [List.foldl_cons, ih]
    constructor
    · rintro ⟨hset, _⟩
      exact absurd hset Flag.set_ne_clear
    · rintro ⟨_, hnil⟩
      cases hnil

theorem foldl_handler_inits (s : Spi) (es : List SpiEvt) :
    (es.foldl spiEventHandler s).inits = s.inits := by
  induction es generalizing s with
  | nil => rfl
  | cons e es ih => exact ih (spiEventHandler s e)

theorem Poll.Counts.deliver {p : Poll} (h : p.Counts) (es : List SpiEvt) : (p.deliver es).Counts := by
  have hflag : p.spi.xferDone = Flag.clear ↔ p.delivered = [] := h
  rw [Poll.Counts, Poll.deliver, foldl_handler_xferDone, hflag, List.append_eq_nil_iff]

/-- The loop ends at the first test that sees an event, or at the last; its time never becomes
negative. -/
theorem waitLoop_spec (ints : Interrupts) (timeout i : Nat) {p : Poll} (h : p.Counts)
    (hseen : p.delivered ++ ints.beforeTest i = ints.seen i) :
    0 ≤ (waitLoop ints timeout i p).2 ∧ (waitLoop ints timeout i p).1.Counts ∧
      ∃ k ≤ timeout, (waitLoop ints timeout i p).1.delivered = ints.seen (i + k) ∧
        (∀ j < k, ints.seen (i + j) = []) ∧ (ints.seen (i + k) = [] → k = timeout) := by
  have hcounts := h.deliver (ints.beforeTest i)
  have hdelivered : (p.deliver (ints.beforeTest i)).delivered = ints.seen i := hseen
  induction timeout generalizing i p with
  | zero =>
    have hend : waitLoop ints (0 : Nat) i p = (p.deliver (ints.beforeTest i), 0) := by
      rw [waitLoop, if_neg]
      · rfl
      · rintro ⟨_, hpos⟩
        exact absurd hpos (lt_irrefl _)
    rw [hend]
    exact ⟨le_rfl, hcounts, 0, le_rfl, hdelivered, fun j hj => absurd hj (Nat.not_lt_zero j), fun _ => rfl⟩
  | succ timeout ih =>
    by_cases hnone : ints.seen i = []
    · have hnext : waitLoop ints (timeout + 1 : Nat) i p =
          waitLoop ints timeout (i + 1) (p.deliver (ints.beforeTest i)) := by
        rw [waitLoop, if_pos]
        · rw [Nat.cast_succ, Int.add_sub_cancel]
        · exact ⟨hcounts.mpr (hdelivered.trans hnone), by omega⟩
      have hseen' : (p.deliver (ints.beforeTest i)).delivered ++ ints.beforeTest (i + 1) =
          ints.seen (i + 1) := by
        rw [hdelivered, Interrupts.seen]
      obtain ⟨hpos, hc, k, hk, hdel, hfirst, hlast⟩ :=
        ih (i + 1) hcounts hseen' (hcounts.deliver _) hseen'
      have hshift : ∀ j, i + 1 + j = i + (j + 1) := fun j => by omega
      rw [hshift] at hdel hlast
      rw [hnext]
      refine ⟨hpos, hc, k + 1, Nat.succ_le_succ hk, hdel, ?_, fun hnil => congrArg (· + 1) (hlast hnil)⟩
      intro j hj
      cases j with
      | zero => exact hnone
      | succ j =>
        rw [← hshift]
        exact hfirst j (Nat.lt_of_succ_lt_succ hj)
    · have hend : waitLoop ints (timeout + 1 : Nat) i p =
          (p.deliver (ints.beforeTest i), ((timeout + 1 : Nat) : Int)) := by
        rw [waitLoop, if_neg]
        rintro ⟨hclear, _⟩
        exact hnone (hdelivered ▸ hcounts.mp hclear)
      rw [hend]
      exact ⟨Int.natCast_nonneg _, hcounts, 0, Nat.zero_le _, hdelivered,
        fun j hj => absurd hj (Nat.not_lt_zero j), fun hnil => absurd hnil hnone⟩

theorem halSpiUninit_xferDone (s : Spi) : (halSpiUninit s).xferDone = s.xferDone := by
  rw [halSpiUninit]
  split <;> rfl

/-- The initialiser leaves the flag of the transfer alone. -/
theorem halSpiInit_xferDone {results : Results} {fuel : Nat} {s s' : Spi}
    (h : halSpiInit results fuel s = some s') : s'.xferDone = s.xferDone := by
  induction fuel generalizing s with
  | zero => cases h
  | succ fuel ih =>
    rw [halSpiInit] at h
    dsimp only at h
    rw [if_pos (halSpiUninit_initialized s), halSpiErrorCheck] at h
    split at h
    · rw [ih h, halSpiUninit_xferDone]
      exact halSpiUninit_xferDone s
    · cases h
      exact halSpiUninit_xferDone s

theorem halSpiErrorCheck_xferDone {results : Results} {fuel : Nat} {code : ErrCode} {s s' : Spi}
    (h : halSpiErrorCheck (halSpiInit results fuel) code s = some s') : s'.xferDone = s.xferDone := by
  rw [halSpiErrorCheck] at h
  split at h
  · rw [halSpiInit_xferDone h, halSpiUninit_xferDone]
  · cases h
    rfl

/-- The error check comes back for an accepted transfer, and for a refused one exactly if the
initialiser does. -/
theorem halSpiErrorCheck_returns (results : Results) (code : ErrCode) (s : Spi) :
    (∃ fuel s', halSpiErrorCheck (halSpiInit results fuel) code s = some s') ↔
      code = nrfSuccess ∨ ∃ k, results (s.inits + k) = nrfSuccess := by
  by_cases hcode : code = nrfSuccess
  · refine iff_of_true ⟨0, s, ?_⟩ (Or.inl hcode)
    rw [halSpiErrorCheck, if_neg (not_not.mpr hcode)]
  · have hinit := (halSpiInit_retries results).returnsWithin_iff (s := halSpiUninit s) trivial
    rw [halSpiUninit_inits] at hinit
    rw [or_iff_right hcode, ← hinit]
    constructor
    · rintro ⟨fuel, s', hcall⟩
      rw [halSpiErrorCheck, if_pos hcode] at hcall
      exact ⟨s'.inits, fuel, s', hcall, Nat.le_add_left _ _⟩
    · rintro ⟨_, fuel, s', hcall, _⟩
      refine ⟨fuel, s', ?_⟩
      rw [halSpiErrorCheck, if_pos hcode]
      exact hcall

/-- How a transfer ends on an initialised bus: always with the driver's answer, at the first test
that sees an event, or with the flag down if none does. -/
theorem halSpiTransfer_spec {fuel : Nat} {results : Results} {transfer : ErrCode} {ints : Interrupts}
    {s : Spi} {r : Poll × ErrCode} (hs : s.initialized = Flag.set)
    (h : halSpiTransfer fuel results transfer ints s = some r) :
    r.2 = transfer ∧
      ((∃ k ≤ hwTimeout, ints.seen k ≠ [] ∧ (∀ j < k, ints.seen j = []) ∧
          r.1.spi.xferDone ≠ Flag.clear ∧ r.1.delivered = ints.seen k) ∨
        ((∀ k ≤ hwTimeout, ints.seen k = []) ∧ r.1.spi.xferDone = Flag.clear ∧ r.1.delivered = [])) := by
  rw [halSpiTransfer, if_pos hs] at h
  obtain ⟨s', hcheck, hr⟩ := Option.map_eq_some_iff.mp h
  have hsubmit : ((Poll.mk { s with xferDone := Flag.clear } []).deliver ints.onSubmit).Counts :=
    Poll.Counts.deliver (iff_of_true rfl rfl) _
  have hcounts : (Poll.mk s' ints.onSubmit).Counts := by
    rw [Poll.Counts, halSpiErrorCheck_xferDone hcheck]
    exact hsubmit
  obtain ⟨htime, hc, k, hk, hdel, hfirst, hlast⟩ := waitLoop_spec ints hwTimeout 0 hcounts rfl
  simp only [Nat.zero_add] at hdel hfirst hlast
  rw [← hr]
  refine ⟨if_neg (Int.not_lt.mpr htime), ?_⟩
  by_cases hnil : ints.seen k = []
  · refine Or.inr ⟨fun j hj => ?_, hc.mpr (hdel.trans hnil), hdel.trans hnil⟩
    rcases Nat.lt_or_eq_of_le (hj.trans_eq (hlast hnil).symm) with hlt | heq
    · exact hfirst j hlt
    · rw [heq]
      exact hnil
  · exact Or.inl ⟨k, hk, hnil, hfirst, fun hclear => hnil (hdel.symm.trans (hc.mp hclear)), hdel⟩

/-- A transfer on an initialised bus returns where its error check does. -/
theorem halSpiTransfer_returns {s : Spi} (hs : s.initialized = Flag.set) (results : Results)
    (transfer : ErrCode) (ints : Interrupts) :
    (∃ fuel r, halSpiTransfer fuel results transfer ints s = some r) ↔
      transfer = nrfSuccess ∨ ∃ k, results (s.inits + k) = nrfSuccess := by
  have hinits := foldl_handler_inits { s with xferDone := Flag.clear } ints.onSubmit
  have hcheck := halSpiErrorCheck_returns results transfer
    (ints.onSubmit.foldl spiEventHandler { s with xferDone := Flag.clear })
  rw [hinits] at hcheck
  refine Iff.trans (exists_congr fun fuel => ?_) hcheck
  rw [halSpiTransfer, if_pos hs]
  simp only [Option.map_eq_some_iff]
  constructor
  · rintro ⟨r, s', hs', _⟩
    exact ⟨s', hs'⟩
  · rintro ⟨s', hs'⟩
    exact ⟨_, s', hs', rfl⟩

/-- The first test that sees an event is the same for every run of the call. -/
theorem seen_first_unique {ints : Interrupts} {j k : Nat} (hj : ints.seen j ≠ [])
    (hk : ints.seen k ≠ []) (hjfirst : ∀ i < j, ints.seen i = []) (hkfirst : ∀ i < k, ints.seen i = []) :
    j = k := by
  rcases Nat.lt_trichotomy j k with hlt | heq | hgt
  · exact absurd (hkfirst j hlt) hj
  · exact heq
  · exact absurd (hjfirst k hgt) hk

theorem nrfSuccess_ne_timeout : nrfSuccess ≠ nrfErrorTimeout := by decide

/-- An accepted transfer. -/
theorem truthful_accepted_iff {s : Spi} (hs : s.initialized = Flag.set) (results : Results)
    (ints : Interrupts) :
    Truthful results nrfSuccess ints s ↔ InTime results nrfSuccess ints s := by
  rw [InTime, if_pos rfl]
  constructor
  · intro h
    obtain ⟨fuel, r, hr⟩ := (halSpiTransfer_returns hs results nrfSuccess ints).mpr (Or.inl rfl)
    obtain ⟨hans, ⟨k, hk, hne, hfirst, _, hdel⟩ | ⟨_, hclear, _⟩⟩ := halSpiTransfer_spec hs hr
    · obtain ⟨_, _, hown⟩ := h.sound fuel r hr hans
      exact ⟨k, hk, hne, hfirst, hdel ▸ hown⟩
    · exact absurd (hans.symm.trans (h.timeout fuel r hr hs hclear)) nrfSuccess_ne_timeout
  · rintro ⟨k, hk, hne, hfirst, hown⟩
    constructor
    · intro fuel r hr _
      obtain ⟨_, ⟨k', _, hne', hfirst', _, hdel⟩ | ⟨hunseen, _⟩⟩ := halSpiTransfer_spec hs hr
      · rw [hdel, seen_first_unique hne' hne hfirst' hfirst]
        exact ⟨hs, rfl, hown⟩
      · exact absurd (hunseen k hk) hne
    · intro fuel r hr _ hclear
      obtain ⟨_, ⟨_, _, _, _, hset, _⟩ | ⟨hunseen, _⟩⟩ := halSpiTransfer_spec hs hr
      · exact absurd hclear hset
      · exact absurd (hunseen k hk) hne

/-- A refused transfer. -/
theorem truthful_refused_iff {transfer : ErrCode} (hcode : transfer ≠ nrfSuccess) {s : Spi}
    (hs : s.initialized = Flag.set) (results : Results) (ints : Interrupts) :
    Truthful results transfer ints s ↔ InTime results transfer ints s := by
  rw [InTime, if_neg hcode]
  constructor
  · intro h
    by_contra hnot
    rw [not_or, not_or] at hnot
    obtain ⟨hunseen, hlate, hinit⟩ := hnot
    obtain ⟨fuel, r, hr⟩ :=
      (halSpiTransfer_returns hs results transfer ints).mpr (Or.inr (not_forall_not.mp hinit))
    obtain ⟨hans, ⟨k, hk, hne, _⟩ | ⟨_, hclear, _⟩⟩ := halSpiTransfer_spec hs hr
    · exact hunseen ⟨k, hk, hne⟩
    · exact hlate (hans.symm.trans (h.timeout fuel r hr hs hclear))
  · intro h
    constructor
    · intro fuel r hr hok
      obtain ⟨hans, _⟩ := halSpiTransfer_spec hs hr
      exact absurd (hans.symm.trans hok) hcode
    · intro fuel r hr _ hclear
      obtain ⟨hans, ⟨_, _, _, _, hset, _⟩ | ⟨hunseen, _⟩⟩ := halSpiTransfer_spec hs hr
      · exact absurd hclear hset
      · rcases h with ⟨k, hk, hne⟩ | hlate | hnever
        · exact absurd (hunseen k hk) hne
        · exact hans.trans hlate
        · rcases (halSpiTransfer_returns hs results transfer ints).mp ⟨fuel, r, hr⟩ with hok | ⟨k, hk⟩
          · exact absurd hok hcode
          · exact absurd hk (hnever k)

/-- The answer of the SPI is the truth exactly if the bus is not initialised, or the events come
in time. -/
theorem spi_transfer_truthful_iff (results : Results) (transfer : ErrCode) (ints : Interrupts) (s : Spi) :
    Truthful results transfer ints s ↔ s.initialized = Flag.set → InTime results transfer ints s := by
  by_cases hs : s.initialized = Flag.set
  · rw [forall_prop_of_true hs]
    by_cases hcode : transfer = nrfSuccess
    · rw [hcode]
      exact truthful_accepted_iff hs results ints
    · exact truthful_refused_iff hcode hs results ints
  · refine iff_of_true ⟨fun fuel r hr hok => ?_, fun _ _ _ hset => absurd hset hs⟩
      (fun hset => absurd hset hs)
    rw [halSpiTransfer, if_neg hs, Option.some_inj] at hr
    have hforbidden : nrfErrorForbidden = nrfSuccess := (congrArg Prod.snd hr).trans hok
    exact absurd hforbidden (by decide)

def silent : Interrupts := ⟨[], fun _ => [], []⟩

theorem silent_transfer_succeeds :
    ¬ Truthful (fun _ => nrfSuccess) nrfSuccess silent { Spi.powerOn with initialized := Flag.set } := by
  have hunseen : ∀ k, silent.seen k = [] := by
    intro k
    induction k with
    | zero => rfl
    | succ k ih => rw [Interrupts.seen, ih]; rfl
  rw [truthful_accepted_iff rfl, InTime, if_pos rfl]
  rintro ⟨k, _, hne, _⟩
  exact hne (hunseen k)

end SidFirmware.HalBus
