import SidFirmware.Application.CommandHandler
import SidFirmware.Foundation.Runs

/-! The one buffer behind all records of `Application/SID_Storage.c`. A call stages a record
in it and hands its address to Flash Data Storage, which reads the words whenever it comes to
them; the call itself may be over by then. -/
namespace SidFirmware.FlashBuffer
open Memory SidStorage EsCommands Runs

/-- `FILEID_NAME` and `FILEID_FRAMECFG`. -/
inductive FileId where
  | name
  | frameCfg
deriving DecidableEq

/-- A write that was accepted: the bytes its call staged, the words that lay at its address
when it was accepted, and the words that were read there for flash. -/
structure Request where
  file : FileId
  bytes : List UInt8
  given : List UInt8
  stored : Option (List UInt8)

/-- Where the one thread stands in a call that uses the buffer: it has cleared the buffer, has
staged its bytes in it, waits for its write, or has read a record into it. The number is the
length of the record. -/
inductive Thread where
  | idle
  | cleared (file : FileId) (bytes : List UInt8) (length : Nat)
  | staged (file : FileId) (bytes : List UInt8) (length : Nat)
  | waiting
  | copied

/-- `g_u8IsMemInitialized`, the bytes of `g_acu32Data`, the thread, the writes that are
accepted and not complete, those that are complete, and what flash holds. -/
structure State where
  isMemInitialized : Bool
  data : Nat → UInt8
  thread : Thread
  requests : List Request
  completed : List Request
  records : FileId → Option (List UInt8)

def init (isMemInitialized : Bool) (data : Nat → UInt8) (records : FileId → Option (List UInt8)) :
    State :=
  ⟨isMemInitialized, data, .idle, [], [], records⟩

/-- The calls; a read also depends on whether its record can be opened. -/
inductive Call where
  | frameConfigWrite (config : Nat → UInt8) (size : UInt8)
  | frameConfigRead (opened : Bool)
  | deviceNameWrite (name : Nat → UInt8) (size : UInt8)
  | deviceNameRead (opened : Bool)

/-- The bytes of `l_achName` that `eStorage_DeviceNameWrite` stages. -/
def stagedName (name : Nat → UInt8) (size : UInt8) : List UInt8 :=
  let nameLght := size + 1
  cells (Function.update (copyIn (fun _ => 0) 0 (cells name 0 size.toNat)) nameLght.toNat 0) 0 nameLght.toNat

/-- The `memset` of both writes. -/
def clear (s : State) (file : FileId) (bytes : List UInt8) (length : Nat) : State :=
  { s with
    data := copyIn s.data 0 (List.replicate maxSizeData 0)
    thread := .cleared file bytes length }

/-- `eMemory_Read`, whose callback copies what it takes of the record; `none` when that leaves the
buffer. -/
def memoryRead (s : State) (file : FileId) (opened : Bool) (take : List UInt8 → List UInt8) :
    Option State :=
  match s.records file with
  | some bytes =>
    if opened then
      if (take bytes).length ≤ 4 * maxSizeData then
        some { s with data := copyIn s.data 0 (take bytes), thread := .copied }
      else none
    else some s
  | none => some s

/-- A call up to its first access to the buffer, or to its end if it has none. `none` is a name
that overruns the local `l_achName`, or a record that overruns the buffer. -/
def enter (s : State) : Call → Option State
  | .frameConfigWrite config size =>
    if s.isMemInitialized then
      some (clear s .frameCfg (cells config 0 size.toNat) (wordBytes size.toNat))
    else some s
  | .frameConfigRead opened =>
    if s.isMemInitialized then memoryRead s .frameCfg opened id else some s
  | .deviceNameWrite name size =>
    if s.isMemInitialized then
      if (size + 1).toNat < nameSize then
        if nameSize < size.toNat then none
        else some (clear s .name (stagedName name size) (wordBytes nameSize))
      else some s
    else some s
  | .deviceNameRead opened =>
    if s.isMemInitialized then memoryRead s .name opened (List.take nameSize) else some s

/-- The thread goes on: it stages its bytes, makes its request, or returns. A request that is
not `accepted` ends the call; one that is accepted ends it at any time, by the flag or by the
time-out. Bytes for which the buffer has no room overrun it. -/
def proceed (s : State) (accepted : Bool) : Option State :=
  match s.thread with
  | .idle => none
  | .cleared file bytes length =>
    if bytes.length ≤ 4 * maxSizeData then
      some { s with data := copyIn s.data 0 bytes, thread := .staged file bytes length }
    else none
  | .staged file bytes length =>
    if accepted then
      some { s with
        requests := s.requests ++ [⟨file, bytes, cells s.data 0 length, none⟩]
        thread := .waiting }
    else some { s with thread := .idle }
  | .waiting => some { s with thread := .idle }
  | .copied => some { s with thread := .idle }

/-- Flash Data Storage reads the words of a write where they lie now. -/
def store (s : State) (i : Nat) : Option State :=
  (s.requests[i]?).map fun r =>
    { s with requests := s.requests.set i { r with stored := some (cells s.data 0 r.given.length) } }

/-- A write completes; one that succeeds had its words read. -/
def complete (s : State) (i : Nat) (success : Bool) : Option State :=
  (s.requests[i]?).bind fun r =>
    if success then
      r.stored.map fun words =>
        { s with
          requests := s.requests.eraseIdx i
          completed := s.completed ++ [r]
          records := Function.update s.records r.file (some words) }
    else some { s with requests := s.requests.eraseIdx i }

/-- A call begins when none is under way, the thread goes on, or Flash Data Storage works on
one of its requests. -/
inductive Event where
  | call (c : Call)
  | proceed (accepted : Bool)
  | store (i : Nat)
  | complete (i : Nat) (success : Bool)

def step (s : State) : Event → Option State
  | .call c =>
    match s.thread with
    | .idle => enter s c
    | _ => none
  | .proceed accepted => FlashBuffer.proceed s accepted
  | .store i => FlashBuffer.store s i
  | .complete i success => FlashBuffer.complete s i success

/-- The next call waits for the one before it, and Flash Data Storage works on what it has. -/
def Possible (s : State) : Event → Prop
  | .call _ => s.thread = .idle
  | .proceed _ => s.thread ≠ .idle
  | .store i => i < s.requests.length
  | .complete i success => ∃ r, s.requests[i]? = some r ∧ (success = true → r.stored.isSome)

def UsesBuffer (s : State) : Call → Prop
  | .frameConfigWrite _ _ => s.isMemInitialized = true
  | .frameConfigRead opened =>
    s.isMemInitialized = true ∧ opened = true ∧ s.records .frameCfg ≠ none
  | .deviceNameWrite _ size => s.isMemInitialized = true ∧ (size + 1).toNat < nameSize
  | .deviceNameRead opened =>
    s.isMemInitialized = true ∧ opened = true ∧ s.records .name ≠ none

def Stores (s : State) : Event → Prop
  | .call c => s.thread = .idle ∧ UsesBuffer s c
  | .proceed _ => ∃ file bytes length, s.thread = .cleared file bytes length
  | .store _ => False
  | .complete _ _ => False

/-- The buffer is only stored to while no accepted write is incomplete. -/
def Untouched (s : State) (e : Event) : Prop := Stores s e → s.requests = []

/-- A call that gets to the buffer finds every accepted write complete. -/
def StartsIdle (s : State) : Event → Prop
  | .call c => s.thread = .idle → UsesBuffer s c → s.requests = []
  | _ => True

/-- The 80 bytes of the buffer, and for a name the 20 of `l_achName`, have room for the call. -/
def Fits (s : State) : Call → Prop
  | .frameConfigWrite _ size => size.toNat ≤ 4 * maxSizeData
  | .frameConfigRead _ => ∀ bytes ∈ s.records .frameCfg, bytes.length ≤ 4 * maxSizeData
  | .deviceNameWrite _ size => size.toNat ≤ nameSize
  | .deviceNameRead _ => True

def StaysInside (s : State) : Event → Prop
  | .call c => s.thread = .idle → UsesBuffer s c → Fits s c
  | _ => True

/-- The words of a write, read or not, are those it was given, which begin with the bytes that
its call staged. -/
structure Request.AsGiven (r : Request) : Prop where
  words : ∀ words ∈ r.stored, words = r.given
  bytes : r.bytes <+: r.given

/-- Every write is as given, and what flash holds of a file was there at first or is what a
completed write for this file was given. -/
structure AsGiven (records : FileId → Option (List UInt8)) (s : State) : Prop where
  pending : ∀ r ∈ s.requests, r.AsGiven
  completed : ∀ r ∈ s.completed, r.AsGiven
  flash : ∀ file, s.records file = records file ∨
    ∃ r ∈ s.completed, r.file = file ∧ s.records file = some r.given

/-- The bytes to stage fit the buffer and the record, and lie in the buffer once they are staged;
until the request is made no other write is under way. -/
def Thread.Sound (t : Thread) (data : Nat → UInt8) (requests : List Request) : Prop :=
  match t with
  | .cleared _ bytes length =>
    (bytes.length ≤ length ∧ bytes.length ≤ 4 * maxSizeData) ∧ requests = []
  | .staged _ bytes length => bytes <+: cells data 0 length ∧ requests = []
  | _ => True

/-- What admitted steps keep: beside the statement, the words of every write that is under way
still lie in the buffer. -/
structure Sound (records : FileId → Option (List UInt8)) (s : State) : Prop extends AsGiven records s where
  thread : s.thread.Sound s.data s.requests
  inPlace : ∀ r ∈ s.requests, cells s.data 0 r.given.length = r.given

theorem le_wordBytes (byteNumber : Nat) : byteNumber ≤ wordBytes byteNumber := by
  rw [wordBytes]
  omega

theorem memoryRead_cases {s s' : State} {file : FileId} {opened : Bool} {take : List UInt8 → List UInt8}
    (h : memoryRead s file opened take = some s') :
    (¬ (opened = true ∧ s.records file ≠ none) ∧ s' = s) ∨
    ((opened = true ∧ s.records file ≠ none) ∧
      ∃ bytes, s' = { s with data := copyIn s.data 0 bytes, thread := .copied }) := by
  rw [memoryRead] at h
  cases hrecord : s.records file with
  | none =>
    rw [hrecord] at h
    exact Or.inl ⟨fun hread => hread.2 rfl, (Option.some.inj h).symm⟩
  | some bytes =>
    rw [hrecord] at h
    cases opened with
    | false => exact Or.inl ⟨fun hread => Bool.false_ne_true hread.1, (Option.some.inj h).symm⟩
    | true =>
      simp only [if_true] at h
      split at h
      · exact Or.inr ⟨⟨rfl, Option.some_ne_none bytes⟩, take bytes, (Option.some.inj h).symm⟩
      · cases h

theorem memoryRead_returns {s : State} {file : FileId} {opened : Bool} {take : List UInt8 → List UInt8}
    (h : opened = true → ∀ bytes ∈ s.records file, (take bytes).length ≤ 4 * maxSizeData) :
    ∃ s', memoryRead s file opened take = some s' := by
  rw [memoryRead]
  cases hrecord : s.records file with
  | none => exact ⟨_, rfl⟩
  | some bytes =>
    cases opened with
    | false => exact ⟨_, rfl⟩
    | true =>
      simp only [if_true, if_pos (h rfl bytes hrecord)]
      exact ⟨_, rfl⟩

/-- All that the begin of a call does: nothing, or it clears the buffer for bytes that fit
their record, or it reads a record into it. -/
theorem enter_cases {s s' : State} {c : Call} (h : enter s c = some s') :
    (¬ UsesBuffer s c ∧ s' = s) ∨
    (UsesBuffer s c ∧
      ((∃ file bytes length, bytes.length ≤ length ∧ (Fits s c → bytes.length ≤ 4 * maxSizeData) ∧
          s' = clear s file bytes length) ∨
        ∃ bytes, s' = { s with data := copyIn s.data 0 bytes, thread := .copied })) := by
  by_cases hinit : s.isMemInitialized = true
  · cases c with
    | frameConfigWrite config size =>
      rw [enter, if_pos hinit] at h
      refine Or.inr ⟨hinit, Or.inl ⟨_, _, _, ?_, ?_, (Option.some.inj h).symm⟩⟩
      · rw [cells_length]
        exact le_wordBytes _
      · rw [cells_length]
        exact id
    | frameConfigRead opened =>
      rw [enter, if_pos hinit] at h
      rcases memoryRead_cases h with ⟨hno, hs⟩ | ⟨hyes, hs⟩
      · exact Or.inl ⟨fun hu => hno hu.2, hs⟩
      · exact Or.inr ⟨⟨hinit, hyes⟩, Or.inr hs⟩
    | deviceNameWrite name size =>
      rw [enter, if_pos hinit] at h
      by_cases hfit : (size + 1).toNat < nameSize
      · rw [if_pos hfit] at h
        by_cases hover : nameSize < size.toNat
        · rw [if_pos hover] at h
          cases h
        · rw [if_neg hover] at h
          refine Or.inr ⟨⟨hinit, hfit⟩, Or.inl ⟨_, _, _, ?_, fun _ => ?_, (Option.some.inj h).symm⟩⟩
          · rw [stagedName, cells_length]
            exact (le_of_lt hfit).trans (le_wordBytes nameSize)
          · rw [stagedName, cells_length]
            exact (le_of_lt hfit).trans (by decide)
      · rw [if_neg hfit] at h
        exact Or.inl ⟨fun hu => hfit hu.2, (Option.some.inj h).symm⟩
    | deviceNameRead opened =>
      rw [enter, if_pos hinit] at h
      rcases memoryRead_cases h with ⟨hno, hs⟩ | ⟨hyes, hs⟩
      · exact Or.inl ⟨fun hu => hno hu.2, hs⟩
      · exact Or.inr ⟨⟨hinit, hyes⟩, Or.inr hs⟩
  · have hno : ¬ UsesBuffer s c := by
      cases c with
      | frameConfigWrite config size => exact hinit
      | frameConfigRead opened => exact fun hu => hinit hu.1
      | deviceNameWrite name size => exact fun hu => hinit hu.1
      | deviceNameRead opened => exact fun hu => hinit hu.1
    refine Or.inl ⟨hno, ?_⟩
    cases c <;> rw [enter, if_neg hinit] at h <;> exact (Option.some.inj h).symm

/-- A call with room for what it copies gets to its first access. -/
theorem enter_returns {s : State} {c : Call} (h : UsesBuffer s c → Fits s c) : ∃ s', enter s c = some s' := by
  by_cases hinit : s.isMemInitialized = true
  · cases c with
    | frameConfigWrite config size =>
      rw [enter, if_pos hinit]
      exact ⟨_, rfl⟩
    | frameConfigRead opened =>
      rw [enter, if_pos hinit]
      refine memoryRead_returns fun hopened bytes hbytes => ?_
      refine h ⟨hinit, hopened, fun hnone => ?_⟩ bytes hbytes
      rw [hnone] at hbytes
      cases hbytes
    | deviceNameWrite name size =>
      rw [enter, if_pos hinit]
      by_cases hfit : (size + 1).toNat < nameSize
      · have hroom : size.toNat ≤ nameSize := h ⟨hinit, hfit⟩
        rw [if_pos hfit, if_neg (not_lt.mpr hroom)]
        exact ⟨_, rfl⟩
      · rw [if_neg hfit]
        exact ⟨_, rfl⟩
    | deviceNameRead opened =>
      rw [enter, if_pos hinit]
      refine memoryRead_returns fun _ bytes _ => ?_
      rw [List.length_take]
      exact (min_le_left _ _).trans (by decide)
  · cases c <;> rw [enter, if_neg hinit] <;> exact ⟨_, rfl⟩

/-- A call without room overruns an array, at once or when it goes on. -/
theorem call_overruns {s : State} {c : Call} (hidle : s.thread = .idle) (huse : UsesBuffer s c)
    (h : ¬ Fits s c) (accepted : Bool) : run step s [.call c, .proceed accepted] = none := by
  have hcall : step s (.call c) = enter s c := by rw [step, hidle]
  rw [run, hcall]
  cases c with
  | frameConfigWrite config size =>
    have hinit : s.isMemInitialized = true := huse
    have hlong : ¬ (cells config 0 size.toNat).length ≤ 4 * maxSizeData := by
      rw [cells_length]
      exact h
    rw [enter, if_pos hinit, Option.bind_some, run, step, FlashBuffer.proceed, clear]
    dsimp only
    rw [if_neg hlong, Option.bind_none]
  | frameConfigRead opened =>
    obtain ⟨hinit, hopened, _⟩ := huse
    obtain ⟨bytes, hbytes, hlong⟩ : ∃ bytes, s.records .frameCfg = some bytes ∧
        ¬ (id bytes).length ≤ 4 * maxSizeData := by
      simpa [Fits, Option.mem_def] using h
    rw [enter, if_pos hinit, memoryRead, hbytes]
    simp only [hopened, if_true, if_neg hlong, Option.bind_none]
  | deviceNameWrite name size =>
    have hlong : nameSize < size.toNat := not_le.mp h
    rw [enter, if_pos huse.1, if_pos huse.2, if_pos hlong, Option.bind_none]
  | deviceNameRead opened => exact absurd trivial h

section Steps
variable {records : FileId → Option (List UInt8)} {s s' : State}

theorem init_sound (isMemInitialized : Bool) (data : Nat → UInt8) :
    Sound records (init isMemInitialized data records) where
  pending _ hr := absurd hr List.not_mem_nil
  completed _ hr := absurd hr List.not_mem_nil
  flash _ := Or.inl rfl
  thread := trivial
  inPlace _ hr := absurd hr List.not_mem_nil

theorem enter_sound {c : Call} (h : Sound records s) (hidle : UsesBuffer s c → s.requests = [])
    (hfits : UsesBuffer s c → Fits s c) (hs : enter s c = some s') : Sound records s' := by
  rcases enter_cases hs with ⟨_, rfl⟩ | ⟨huse, hcases⟩
  · exact h
  · have hnone := hidle huse
    have hempty : ∀ r ∈ s.requests, ∀ data : Nat → UInt8, cells data 0 r.given.length = r.given := by
      intro r hr
      rw [hnone] at hr
      exact absurd hr List.not_mem_nil
    rcases hcases with ⟨file, bytes, length, hfit, hroom, rfl⟩ | ⟨bytes, rfl⟩
    · exact ⟨⟨h.pending, h.completed, h.flash⟩, ⟨⟨hfit, hroom (hfits huse)⟩, hnone⟩, fun r hr => hempty r hr _⟩
    · exact ⟨⟨h.pending, h.completed, h.flash⟩, trivial, fun r hr => hempty r hr _⟩

theorem proceed_sound {accepted : Bool} (h : Sound records s) (hs : proceed s accepted = some s') :
    Sound records s' := by
  have hthread := h.thread
  unfold FlashBuffer.proceed at hs
  cases ht : s.thread with
  | idle =>
    rw [ht] at hs
    cases hs
  | cleared file bytes length =>
    rw [ht] at hs hthread
    obtain ⟨⟨hfit, hroom⟩, hnone⟩ := hthread
    dsimp only at hs
    rw [if_pos hroom] at hs
    obtain rfl := Option.some.inj hs
    refine ⟨⟨h.pending, h.completed, h.flash⟩, ⟨?_, hnone⟩, fun r hr => ?_⟩
    · have hprefix := List.take_prefix bytes.length (cells (copyIn s.data 0 bytes) 0 length)
      rw [cells_take _ 0 hfit, cells_copyIn] at hprefix
      exact hprefix
    · rw [hnone] at hr
      exact absurd hr List.not_mem_nil
  | staged file bytes length =>
    rw [ht] at hs hthread
    obtain ⟨hbytes, hnone⟩ := hthread
    cases accepted with
    | true =>
      obtain rfl := Option.some.inj hs
      have hnew : ∀ r ∈ s.requests ++ [⟨file, bytes, cells s.data 0 length, none⟩],
          r = ⟨file, bytes, cells s.data 0 length, none⟩ := by
        intro r hr
        rw [hnone] at hr
        exact List.mem_singleton.mp hr
      refine ⟨⟨fun r hr => ?_, h.completed, h.flash⟩, trivial, fun r hr => ?_⟩
      · rw [hnew r hr]
        exact ⟨fun words hw => absurd hw (by simp), hbytes⟩
      · rw [hnew r hr, cells_length]
    | false =>
      obtain rfl := Option.some.inj hs
      exact ⟨⟨h.pending, h.completed, h.flash⟩, trivial, h.inPlace⟩
  | waiting =>
    rw [ht] at hs
    obtain rfl := Option.some.inj hs
    exact ⟨⟨h.pending, h.completed, h.flash⟩, trivial, h.inPlace⟩
  | copied =>
    rw [ht] at hs
    obtain rfl := Option.some.inj hs
    exact ⟨⟨h.pending, h.completed, h.flash⟩, trivial, h.inPlace⟩

theorem Thread.Sound.fewer {t : Thread} {data : Nat → UInt8} {requests requests' : List Request}
    (h : t.Sound data requests) (hr : requests = [] → requests' = []) : t.Sound data requests' := by
  cases t with
  | cleared file bytes length => exact ⟨h.1, hr h.2⟩
  | staged file bytes length => exact ⟨h.1, hr h.2⟩
  | _ => trivial

theorem store_sound {i : Nat} (h : Sound records s) (hs : store s i = some s') : Sound records s' := by
  obtain ⟨r, hr, rfl⟩ := Option.map_eq_some_iff.mp hs
  have hmem := List.mem_of_getElem? hr
  have hset : ∀ r' ∈ s.requests.set i { r with stored := some (cells s.data 0 r.given.length) },
      r' ∈ s.requests ∨ r' = { r with stored := some (cells s.data 0 r.given.length) } :=
    fun r' hr' => List.mem_or_eq_of_mem_set hr'
  refine ⟨⟨fun r' hr' => ?_, h.completed, h.flash⟩, h.thread.fewer ?_, fun r' hr' => ?_⟩
  · rcases hset r' hr' with hold | rfl
    · exact h.pending r' hold
    · refine ⟨fun words hw => ?_, (h.pending r hmem).bytes⟩
      rw [← Option.some.inj hw]
      exact h.inPlace r hmem
  · intro hnone
    rw [hnone]
    rfl
  · rcases hset r' hr' with hold | rfl
    · exact h.inPlace r' hold
    · exact h.inPlace r hmem

theorem complete_sound {i : Nat} {success : Bool} (h : Sound records s)
    (hs : complete s i success = some s') : Sound records s' := by
  obtain ⟨r, hr, hs⟩ := Option.bind_eq_some_iff.mp hs
  have hmem := List.mem_of_getElem? hr
  have hless : ∀ r' ∈ s.requests.eraseIdx i, r' ∈ s.requests := fun r' => List.mem_of_mem_eraseIdx
  have hthread : s.thread.Sound s.data (s.requests.eraseIdx i) := by
    apply h.thread.fewer
    intro hnone
    rw [hnone]
    rfl
  cases success with
  | false =>
    obtain rfl := Option.some.inj hs
    exact ⟨⟨fun r' hr' => h.pending r' (hless r' hr'), h.completed, h.flash⟩, hthread,
      fun r' hr' => h.inPlace r' (hless r' hr')⟩
  | true =>
    obtain ⟨words, hw, rfl⟩ := Option.map_eq_some_iff.mp hs
    have hgiven := (h.pending r hmem).words words hw
    refine ⟨⟨fun r' hr' => h.pending r' (hless r' hr'), fun r' hr' => ?_, fun file => ?_⟩, hthread,
      fun r' hr' => h.inPlace r' (hless r' hr')⟩
    · rcases List.mem_append.mp hr' with hold | hnew
      · exact h.completed r' hold
      · rw [List.mem_singleton.mp hnew]
        exact h.pending r hmem
    · by_cases hfile : file = r.file
      · subst hfile
        exact Or.inr ⟨r, by simp, rfl, by simp [hgiven]⟩
      · rcases h.flash file with hold | ⟨r', hr', hf, hrec⟩
        · exact Or.inl ((Function.update_of_ne hfile _ _).trans hold)
        · exact Or.inr ⟨r', List.mem_append_left _ hr', hf, (Function.update_of_ne hfile _ _).trans hrec⟩

theorem step_sound {e : Event} (h : Sound records s) (hidle : StartsIdle s e) (hinside : StaysInside s e)
    (hs : step s e = some s') : Sound records s' := by
  cases e with
  | call c =>
    rw [step] at hs
    split at hs
    · rename_i ht
      exact enter_sound h (hidle ht) (hinside ht) hs
    · cases hs
  | proceed accepted => exact proceed_sound h hs
  | store i => exact store_sound h hs
  | complete i success => exact complete_sound h hs

/-- What is possible returns, where a call stays inside the buffer. -/
theorem step_returns {e : Event} (h : Sound records s) (hposs : Possible s e) (hinside : StaysInside s e) :
    ∃ s', step s e = some s' := by
  cases e with
  | call c =>
    have ht : s.thread = .idle := hposs
    obtain ⟨s', hs⟩ := enter_returns (hinside ht)
    rw [step, ht]
    exact ⟨s', hs⟩
  | proceed accepted =>
    have hthread := h.thread
    have hbusy : s.thread ≠ .idle := hposs
    rw [step, FlashBuffer.proceed]
    cases ht : s.thread with
    | idle => exact absurd ht hbusy
    | cleared file bytes length =>
      rw [ht] at hthread
      dsimp only
      rw [if_pos hthread.1.2]
      exact ⟨_, rfl⟩
    | staged file bytes length => cases accepted <;> exact ⟨_, rfl⟩
    | waiting => exact ⟨_, rfl⟩
    | copied => exact ⟨_, rfl⟩
  | store i =>
    have hi : i < s.requests.length := hposs
    rw [step, FlashBuffer.store, List.getElem?_eq_getElem hi]
    exact ⟨_, rfl⟩
  | complete i success =>
    obtain ⟨r, hr, hstored⟩ := hposs
    rw [step, FlashBuffer.complete, hr, Option.bind_some]
    cases success with
    | false => exact ⟨_, rfl⟩
    | true =>
      obtain ⟨words, hwords⟩ := Option.isSome_iff_exists.mp (hstored rfl)
      rw [hwords]
      exact ⟨_, rfl⟩

/-- Where no write is under way when a call gets to the buffer, none is until its request. -/
theorem Sound.untouched {e : Event} (h : Sound records s) (hidle : StartsIdle s e) : Untouched s e := by
  cases e with
  | call c => exact fun hstores => hidle hstores.1 hstores.2
  | proceed accepted =>
    rintro ⟨file, bytes, length, ht⟩
    have hthread := h.thread
    rw [ht] at hthread
    exact hthread.2
  | store i => exact False.elim
  | complete i success => exact False.elim

/-- Only events that store to the buffer change it. -/
theorem step_data {e : Event} (hs : step s e = some s') (h : ¬ Stores s e) : s'.data = s.data := by
  cases e with
  | call c =>
    rw [step] at hs
    split at hs
    · rename_i ht
      rcases enter_cases hs with ⟨_, rfl⟩ | ⟨huse, _⟩
      · rfl
      · exact absurd ⟨ht, huse⟩ h
    · cases hs
  | proceed accepted =>
    rw [step, FlashBuffer.proceed] at hs
    cases ht : s.thread with
    | idle =>
      rw [ht] at hs
      cases hs
    | cleared file bytes length => exact absurd ⟨file, bytes, length, ht⟩ h
    | staged file bytes length =>
      rw [ht] at hs
      cases accepted <;> obtain rfl := Option.some.inj hs <;> rfl
    | waiting =>
      rw [ht] at hs
      obtain rfl := Option.some.inj hs
      rfl
    | copied =>
      rw [ht] at hs
      obtain rfl := Option.some.inj hs
      rfl
  | store i =>
    obtain ⟨r, _, rfl⟩ := Option.map_eq_some_iff.mp hs
    rfl
  | complete i success =>
    obtain ⟨r, _, hs⟩ := Option.bind_eq_some_iff.mp hs
    cases success with
    | false =>
      obtain rfl := Option.some.inj hs
      rfl
    | true =>
      obtain ⟨words, _, rfl⟩ := Option.map_eq_some_iff.mp hs
      rfl

/-- The words of a write under way stay where they are in an admitted step. -/
theorem Untouched.data {e : Event} (h : Untouched s e) (hs : step s e = some s')
    (hbusy : s.requests ≠ []) : s'.data = s.data :=
  step_data hs (fun hst => hbusy (h hst))

def Awaited (s : State) : Prop := s.thread = .waiting ∨ s.requests = []

def ReturnsComplete (s : State) : Event → Prop
  | .proceed _ => s.thread = .waiting → s.requests = []
  | _ => True

theorem step_awaited {e : Event} (h : Awaited s) (hreturn : ReturnsComplete s e)
    (hs : step s e = some s') : Awaited s' := by
  cases e with
  | call c =>
    rw [step] at hs
    split at hs
    · rename_i ht
      have hnone := h.resolve_left (by rw [ht]; exact Thread.noConfusion)
      rcases enter_cases hs with ⟨_, rfl⟩ | ⟨_, ⟨_, _, _, _, _, rfl⟩ | ⟨_, rfl⟩⟩
      · exact h
      · exact Or.inr hnone
      · exact Or.inr hnone
    · cases hs
  | proceed accepted =>
    have hnone : s.requests = [] := h.elim hreturn id
    rw [step, FlashBuffer.proceed] at hs
    cases ht : s.thread with
    | idle =>
      rw [ht] at hs
      cases hs
    | cleared file bytes length =>
      rw [ht] at hs
      dsimp only at hs
      split at hs
      · obtain rfl := Option.some.inj hs
        exact Or.inr hnone
      · cases hs
    | staged file bytes length =>
      rw [ht] at hs
      cases accepted with
      | true =>
        obtain rfl := Option.some.inj hs
        exact Or.inl rfl
      | false =>
        obtain rfl := Option.some.inj hs
        exact Or.inr hnone
    | _ =>
      rw [ht] at hs
      obtain rfl := Option.some.inj hs
      exact Or.inr hnone
  | store i =>
    obtain ⟨r, hr, rfl⟩ := Option.map_eq_some_iff.mp hs
    refine h.imp id fun hnone => ?_
    rw [hnone] at hr
    cases hr
  | complete i success =>
    obtain ⟨r, hr, hs⟩ := Option.bind_eq_some_iff.mp hs
    rcases h with ht | hnone
    · cases success with
      | false =>
        obtain rfl := Option.some.inj hs
        exact Or.inl ht
      | true =>
        obtain ⟨words, _, rfl⟩ := Option.map_eq_some_iff.mp hs
        exact Or.inl ht
    · rw [hnone] at hr
      cases hr

/-- Were it not for the time-out and for the writes of other users, which let a call return
before its own write is complete, every call would find the buffer free. -/
theorem startsIdle_of_returnsComplete (isMemInitialized : Bool) (data : Nat → UInt8) {events : List Event}
    (h : Along step ReturnsComplete (init isMemInitialized data records) events) :
    Along step StartsIdle (init isMemInitialized data records) events := by
  refine Along.imp (I := fun s => Awaited s) (fun _ _ _ hs hp hstep => step_awaited hs hp hstep)
    (fun s e hs _ => ?_) (Or.inr rfl) h
  cases e with
  | call c =>
    intro ht _
    exact hs.resolve_left (by rw [ht]; exact Thread.noConfusion)
  | _ => trivial

end Steps

/-- The words at an address are what they were exactly if each byte is. -/
theorem cells_eq_iff {data data' : Nat → UInt8} {n : Nat} :
    cells data' 0 n = cells data 0 n ↔ ∀ k < n, data' k = data k := by
  constructor
  · intro h k hk
    have hat := congrArg (fun words => words[k]?) h
    rw [cells_getElem? _ _ _ _ hk, cells_getElem? _ _ _ _ hk, Nat.zero_add] at hat
    exact Option.some.inj hat
  · exact fun h => cells_congr fun k hk => by rw [Nat.zero_add]; exact h k hk

/-- A write that waits for its words gets what the next call leaves at its address. -/
theorem call_overtakes {records : FileId → Option (List UInt8)} {s : State} {c : Call} (h : Sound records s)
    (hidle : s.thread = .idle) (hfits : UsesBuffer s c → Fits s c) {i : Nat} {r : Request}
    (hr : s.requests[i]? = some r) :
    ∃ s', run step s [.call c, .store i, .complete i true] = some s' ∧
      (s'.records r.file = some r.given ↔ ∀ k < r.given.length, s'.data k = s.data k) := by
  obtain ⟨called, hcall⟩ := enter_returns hfits
  have hrequests : called.requests = s.requests := by
    rcases enter_cases hcall with ⟨_, rfl⟩ | ⟨_, ⟨_, _, _, _, _, rfl⟩ | ⟨_, rfl⟩⟩ <;> rfl
  have hstep : step s (.call c) = some called := by rw [step, hidle]; exact hcall
  have hi : i < s.requests.length := (List.getElem?_eq_some_iff.mp hr).1
  let r' : Request := { r with stored := some (cells called.data 0 r.given.length) }
  have hstore : step called (.store i) = some { called with requests := s.requests.set i r' } := by
    rw [step, FlashBuffer.store, hrequests, hr]
    rfl
  let done : State := { called with
    requests := (s.requests.set i r').eraseIdx i
    completed := called.completed ++ [r']
    records := Function.update called.records r.file (some (cells called.data 0 r.given.length)) }
  have hcomplete : step { called with requests := s.requests.set i r' } (.complete i true) = some done := by
    rw [step, FlashBuffer.complete, List.getElem?_set_self hi]
    rfl
  refine ⟨done, by simp only [run, hstep, hstore, hcomplete, Option.bind_some], ?_⟩
  have hgiven := h.inPlace r (List.mem_of_getElem? hr)
  rw [← cells_eq_iff, hgiven]
  dsimp only [done]
  rw [Function.update_self, Option.some_inj]

/-- In a run of possible events, in which each call that gets to the buffer finds every write
complete and has room there, every step returns, the buffer is left alone while a write is under
way, and in every state flash has and gets the words that the writes were given. From there on, a
call without room overruns an array; and a write that the next call finds waiting gets the words
it was given exactly if the call leaves them as they are. -/
theorem flash_source_stable (isMemInitialized : Bool) (data : Nat → UInt8)
    (records : FileId → Option (List UInt8)) (events : List Event)
    (hpossible : Along step (fun s e => Possible s e ∧ StartsIdle s e ∧ StaysInside s e)
      (init isMemInitialized data records) events) :
    Throughout step (AsGiven records) (init isMemInitialized data records) events ∧
    Along step Untouched (init isMemInitialized data records) events ∧
    ∀ s, run step (init isMemInitialized data records) events = some s → s.thread = .idle →
      ∀ c, (UsesBuffer s c → ¬ Fits s c → ∀ accepted, run step s [.call c, .proceed accepted] = none) ∧
        ((UsesBuffer s c → Fits s c) → ∀ i r, s.requests[i]? = some r →
          ∃ s', run step s [.call c, .store i, .complete i true] = some s' ∧
            (s'.records r.file = some r.given ↔ ∀ k < r.given.length, s'.data k = s.data k)) := by
  have hstart : Sound records (init isMemInitialized data records) := init_sound isMemInitialized data
  have hsound : Throughout step (Sound records) (init isMemInitialized data records) events :=
    Along.throughout (I := Sound records)
      (fun s e hs hp => by
        obtain ⟨s', hstep⟩ := step_returns hs hp.1 hp.2.2
        exact ⟨s', hstep, step_sound hs hp.2.1 hp.2.2 hstep⟩)
      hstart hpossible
  refine ⟨hsound.mono fun _ hs => hs.toAsGiven, ?_, fun s hrun hidle c => ?_⟩
  · exact Along.imp (I := Sound records) (fun _ _ _ hs hp hstep => step_sound hs hp.2.1 hp.2.2 hstep)
      (fun _ _ hs hp => hs.untouched hp.2.1) hstart hpossible
  · obtain ⟨s', hrun', hs⟩ := hsound.run
    obtain rfl := Option.some.inj (hrun.symm.trans hrun')
    exact ⟨fun huse hfits accepted => call_overruns hidle huse hfits accepted,
      fun hfits _ _ hr => call_overtakes hs hidle hfits hr⟩

/-- A write whose words are read at once, and which completes before its call returns. -/
def undisturbed (c : Call) : List Event :=
  [.call c, .proceed true, .proceed true, .store 0, .complete 0 true, .proceed true]

/-- Undisturbed, `eStorage_FrameConfigWrite` leaves what it leaves as one step. -/
theorem frameConfigWrite_undisturbed (storage : Storage) (hinit : storage.isMemInitialized = true)
    (records : FileId → Option (List UInt8)) (config : Nat → UInt8) (size : UInt8)
    (hsize : size.toNat ≤ 4 * maxSizeData) :
    ∃ s, run step (init true storage.data records) (undisturbed (.frameConfigWrite config size)) = some s ∧
      s.requests = [] ∧ s.data = (frameConfigWrite storage config size .none).1.data ∧
      s.records .frameCfg = (frameConfigWrite storage config size .none).1.frameCfg := by
  have hroom : (cells config 0 size.toNat).length ≤ 4 * maxSizeData := by
    rw [cells_length]
    exact hsize
  simp only [undisturbed, run, step, init, enter, clear, FlashBuffer.proceed, if_true, if_pos hroom,
    Option.bind_some]
  refine ⟨_, rfl, rfl, ?_, ?_⟩
  · rw [frameConfigWrite, if_pos hinit]
    rfl
  · rw [frameConfigWrite, if_pos hinit]
    simp [SidStorage.memoryWrite, SidStorage.memoryWriteEnding]

/-- A name is written and done before the configuration is. -/
def oneByOne : List Event :=
  [.call (.deviceNameWrite (fun _ => 0x41) 1), .proceed true, .proceed true, .store 0, .complete 0 true,
    .proceed true, .call (.frameConfigWrite (fun _ => 0x01) 6)]

theorem flash_source_stable_one_by_one :
    ∃ s, run step (init true (fun _ => 0) (fun _ => none)) oneByOne = some s ∧
      Throughout step (AsGiven fun _ => none) (init true (fun _ => 0) (fun _ => none)) oneByOne := by
  refine ⟨_, rfl, (flash_source_stable true (fun _ => 0) (fun _ => none) oneByOne ?_).1⟩
  have hname : (1 : UInt8).toNat ≤ nameSize := by decide
  have hconfig : (6 : UInt8).toNat ≤ 4 * maxSizeData := by decide
  refine .cons ⟨rfl, fun _ _ => rfl, fun _ _ => hname⟩ rfl ?_
  refine .cons ⟨Thread.noConfusion, trivial, trivial⟩ rfl (.cons ⟨Thread.noConfusion, trivial, trivial⟩ rfl ?_)
  refine .cons ⟨Nat.zero_lt_one, trivial, trivial⟩ rfl ?_
  refine .cons ⟨⟨_, rfl, fun _ => rfl⟩, trivial, trivial⟩ rfl ?_
  refine .cons ⟨Thread.noConfusion, trivial, trivial⟩ rfl ?_
  exact .cons ⟨rfl, fun _ _ => rfl, fun _ _ => hconfig⟩ rfl trivial

/-- The name's write outlives its call, and the configuration is staged over it. -/
def overtaken : List Event :=
  [.call (.deviceNameWrite (fun _ => 0x41) 1), .proceed true, .proceed true, .proceed true,
    .call (.frameConfigWrite (fun _ => 0x01) 6), .proceed true, .store 0, .complete 0 true]

theorem name_receives_config :
    ∃ s, run step (init true (fun _ => 0) (fun _ => none)) overtaken = some s ∧
      (∃ r ∈ s.completed, r.file = .name ∧ r.bytes = [0x41, 0] ∧ r.stored ≠ some r.given) ∧
      s.records .name = some (List.replicate 6 0x01 ++ List.replicate 14 0) := by
  refine ⟨_, rfl, ⟨_, List.mem_singleton_self _, rfl, ?_, ?_⟩, ?_⟩
  · decide
  · decide
  · decide

end SidFirmware.FlashBuffer
