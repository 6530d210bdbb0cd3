import SidFirmware.Interfaces.FrameReceiver

/-! Reassembly end to end: the accumulator, the grammar and the inbox ring together
keep every frame that is cut on its own, and no chunking across a frame end keeps all. -/
namespace SidFirmware.FrameReceiver
open Memory DropOldest EsProtocol EsInterfaces EsQueue

/-- The receiver holds the bytes `bs` and its inbox the frames `content`. -/
structure Receives (l : Link) (r : Receiver) (bs : List UInt8) (content : List (List UInt8)) : Prop where
  holds : Holds l.maxFrameSize r bs
  represents : Represents r.inbox.queue content
  size_eq : r.inbox.queue.size = l.bufferSize

/-- The inbox after one more recognised frame; an empty one is not stored. -/
def store (l : Link) (content : List (List UInt8)) (f : List UInt8) : List (List UInt8) :=
  if f = [] then content else push recordSize (l.bufferSize - 1) f content

/-- The inbox after the recognised frames `fs`, from empty. -/
def stored (l : Link) (fs : List (List UInt8)) : List (List UInt8) := fs.foldl (store l) []

/-- The receiver is in the state `s` of its assembler. -/
def Tracks (l : Link) (r : Receiver) (s : Assembler.State UInt8) : Prop :=
  Receives l r s.collected (stored l s.accepted)

theorem Link.le_bufferSize (l : Link) : l.maxFrameSize + 3 ≤ l.bufferSize := by cases l <;> decide

theorem init_tracks (l : Link) (behindIn behindRead : Nat → UInt8) :
    Tracks l (l.init behindIn behindRead) ⟨[], []⟩ :=
  ⟨init_holds l behindIn behindRead,
    init_represents (by cases l <;> decide) (by cases l <;> decide) _, rfl⟩

private theorem deliver_some {l : Link} {inbox : Inbox} {content : List (List UInt8)} {f : List UInt8}
    (h : Represents inbox.queue content) (hsize : inbox.queue.size = l.bufferSize)
    (hf : f.length ≤ l.maxFrameSize) :
    Represents (deliver inbox (some f)).queue (store l content f) ∧
      (deliver inbox (some f)).queue.size = l.bufferSize := by
  have hbuf := l.le_bufferSize
  by_cases he : f = []
  · subst he
    exact ⟨h, hsize⟩
  · have hpos := List.length_pos_of_ne_nil he
    obtain ⟨hr, hs, _, _⟩ := write_refines h hpos (by rw [hsize]; omega)
    rw [store, if_neg he, ← hsize]
    exact ⟨hr, hs⟩

/-- One call on one byte or more, with what it does to the inbox. -/
theorem dataReceived_receives (l : Link) {r : Receiver} {bs chunk : List UInt8}
    {content : List (List UInt8)} (h : Receives l r bs content)
    (hne : Assembler.fill l.maxFrameSize bs chunk ≠ []) :
    ∃ r', l.dataReceived r chunk = some ⟨r', accept (Assembler.fill l.maxFrameSize bs chunk)⟩ ∧
      Receives l r' (leftover (Assembler.fill l.maxFrameSize bs chunk))
        ((accept (Assembler.fill l.maxFrameSize bs chunk)).elim content (store l content)) ∧
      r'.inbox = deliver r.inbox (accept (Assembler.fill l.maxFrameSize bs chunk)) := by
  obtain ⟨r', hd, hh, hi⟩ := dataReceived_spec l h.holds hne
  have hinbox : Represents r'.inbox.queue
        ((accept (Assembler.fill l.maxFrameSize bs chunk)).elim content (store l content)) ∧
      r'.inbox.queue.size = l.bufferSize := by
    rw [hi]
    cases ha : accept (Assembler.fill l.maxFrameSize bs chunk) with
    | none => exact ⟨h.represents, h.size_eq⟩
    | some f =>
      have hle := (rules_sound l _ f ha).length_le
      have hfill : (Assembler.fill l.maxFrameSize bs chunk).length ≤ l.maxFrameSize := by
        rw [Assembler.fill, List.length_take]
        omega
      exact deliver_some h.represents h.size_eq (hle.trans hfill)
  exact ⟨r', hd, ⟨hh, hinbox.1, hinbox.2⟩, hi⟩

private theorem fill_ne_nil (l : Link) (bs : List UInt8) {chunk : List UInt8} (h : chunk ≠ []) :
    Assembler.fill l.maxFrameSize bs chunk ≠ [] := by
  have hmax := l.le_maxFrameSize
  rw [Ne, Assembler.fill_eq_nil_iff (by omega)]
  exact fun he => h he.2

theorem call_tracks (l : Link) {r : Receiver} {s : Assembler.State UInt8} (h : Tracks l r s)
    {chunk : List UInt8} (hc : chunk ≠ []) :
    ∃ r', l.call r chunk = some r' ∧ Tracks l r' (Assembler.feed l.rules s chunk) := by
  obtain ⟨r', hd, hr, _⟩ := dataReceived_receives l h (fill_ne_nil l s.collected hc)
  refine ⟨r', Link.call_eq_some.mpr ⟨_, hd, rfl⟩, ?_⟩
  unfold Tracks
  rw [feed_collected]
  have hacc : stored l (Assembler.feed l.rules s chunk).accepted =
      (accept (Assembler.fill l.maxFrameSize s.collected chunk)).elim (stored l s.accepted)
        (store l (stored l s.accepted)) := by
    cases ha : accept (Assembler.fill l.maxFrameSize s.collected chunk) with
    | none =>
      have he : l.rules.accept (Assembler.fill l.rules.cap s.collected chunk) = none := ha
      rw [Assembler.feed, he]
      rfl
    | some f =>
      have he : l.rules.accept (Assembler.fill l.rules.cap s.collected chunk) = some f := ha
      rw [Assembler.feed, he]
      simp [stored]
  rw [hacc]
  exact hr

/-- Over any sequence of nonempty chunks the receiver refines the assembler. -/
theorem run_tracks (l : Link) {r : Receiver} {s : Assembler.State UInt8} (h : Tracks l r s)
    (chunks : List (List UInt8)) (hc : ∀ c ∈ chunks, c ≠ []) :
    ∃ r', Runs.run l.call r chunks = some r' ∧ Tracks l r' (Assembler.run l.rules s chunks) :=
  Runs.simulation (R := Tracks l) (f := Assembler.feed l.rules)
    (fun _ _ _ ht hne => call_tracks l ht hne) h hc

/-- Frames that fit the ring together are all stored. -/
theorem stored_of_fits {l : Link} {fs : List (List UInt8)} (hne : ∀ f ∈ fs, f ≠ [])
    (hfit : total recordSize fs ≤ l.bufferSize - 1) : stored l fs = fs := by
  induction fs using List.reverseRecOn with
  | nil => rfl
  | append_singleton fs f ih =>
    simp only [total_append, total_cons, total_nil] at hfit
    have hprev := ih (fun g hg => hne g (List.mem_append_left _ hg)) (by omega)
    have hf : f ≠ [] := hne f (by simp)
    unfold stored at hprev ⊢
    rw [List.foldl_append, hprev, List.foldl_cons, List.foldl_nil, store, if_neg hf]
    exact push_of_fits (by omega)

theorem stored_of_wellFormed {l : Link} {fs : List (List UInt8)} (hwf : ∀ f ∈ fs, WellFormed f)
    (hfit : total recordSize fs ≤ l.bufferSize - 1) : stored l fs = fs := by
  refine stored_of_fits (fun f hf => ?_) hfit
  have hmin := (hwf f hf).minimum
  exact List.ne_nil_of_length_pos (by omega)

/-- The ring never holds anything but recognised frames, in order. -/
theorem stored_suffix (l : Link) (fs : List (List UInt8)) : stored l fs <:+ fs.filter (· ≠ []) := by
  induction fs using List.reverseRecOn with
  | nil => exact List.suffix_refl _
  | append_singleton fs f ih =>
    unfold stored at ih ⊢
    rw [List.foldl_append, List.foldl_cons, List.foldl_nil, List.filter_append, store]
    by_cases hf : f = []
    · rw [if_pos hf]
      simpa [hf] using ih
    · rw [if_neg hf]
      obtain ⟨ds, hds⟩ := (evict_suffix (l.bufferSize - 1) (recordSize f)
        (fs.foldl (store l) [])).trans ih
      refine ⟨ds, ?_⟩
      rw [push, ← List.append_assoc, hds]
      simp [hf]

/-- The handler call `c` hands over the frame `f`: its opcode and addresses, and as
payload the bytes between header and check byte. -/
structure Handles (f : List UInt8) (c : HandlerCall) : Prop where
  opCode : f[6]? = some c.opCode
  expdt : f[2]? = some c.expdt.toUInt8
  recpt : f[3]? = some c.recpt.toUInt8
  len : c.len + (headerSize + 1) = f.length
  payload : cells c.payload 0 c.len = (f.drop headerSize).take c.len

theorem copyIn_frame (m : Nat → UInt8) {f : List UInt8} {k : Nat} (h : k < f.length) :
    copyIn m 0 f k = f.getD k 0 := by
  rw [copyIn_inside m 0 f k (Nat.zero_le k) h]
  simp [h]

private theorem frame_byte {m : Nat → UInt8} {f : List UInt8} {k : Nat} (h : k < f.length) :
    f[k]? = some (copyIn m 0 f k) := by
  rw [copyIn_frame m h]
  simp [h]

theorem payloadLength_frame (m : Nat → UInt8) {f : List UInt8} (hlen : lenField f = f.length)
    (hmin : headerSize + 1 ≤ f.length) (hlt : f.length < 65536) :
    getPayloadLength (copyIn m 0 f) 0 + (headerSize + 1) = f.length := by
  have hhs : headerSize = 7 := rfl
  have hframe : getFrameLen (copyIn m 0 f) 0 = f.length := by
    rw [← lenField_cells _ 0 (n := f.length) (by omega), cells_copyIn, hlen]
  rw [getPayloadLength, hframe]
  omega

theorem payload_frame (m : Nat → UInt8) {f : List UInt8} {n : Nat}
    (hn : n ≤ f.length - headerSize) :
    cells (fun k => copyIn m 0 f (getPayload 0 + k)) 0 n = (f.drop headerSize).take n := by
  have hd := cells_drop (copyIn m 0 f) 0 headerSize f.length
  rw [cells_copyIn, Nat.zero_add] at hd
  rw [hd, cells_take _ _ hn, cells_shift, getPayload, Nat.zero_add]

/-- A frame with its own length in its header is handed over as it is. -/
theorem handlerCall_handles (m : Nat → UInt8) {f : List UInt8} (hlen : lenField f = f.length)
    (hmin : headerSize + 1 ≤ f.length) (hlt : f.length < 65536) :
    Handles f (handlerCall (copyIn m 0 f)) := by
  have hhs : headerSize = 7 := rfl
  have hpay : (handlerCall (copyIn m 0 f)).len + (headerSize + 1) = f.length :=
    payloadLength_frame m hlen hmin hlt
  refine ⟨frame_byte (by omega), ?_, ?_, hpay, payload_frame m (by omega)⟩
  · rw [frame_byte (m := m) (by omega)]
    simp [handlerCall, getExpeditor]
  · rw [frame_byte (m := m) (by omega)]
    simp [handlerCall, getRecipient]

/-- The oldest frame is read over what the read buffer held, and handed over. -/
theorem process_read {inbox : Inbox} {f : List UInt8} {fs : List (List UInt8)}
    (h : Represents inbox.queue (f :: fs)) (hne : f ≠ []) :
    ∃ inbox', processIncomingFrame inbox =
        (inbox', .succeed, some (handlerCall (copyIn inbox.bufferRead 0 f))) ∧
      Represents inbox'.queue fs ∧ inbox'.queue.size = inbox.queue.size ∧
      inbox'.bufferRead = copyIn inbox.bufferRead 0 f := by
  obtain ⟨_, _, q', hr, hq', hsize, _⟩ := read_refines h
  have hpos : 0 < (EsQueue.read inbox.queue).data.length := by
    rw [hr]
    exact List.length_pos_of_ne_nil hne
  rw [processIncomingFrame_read hpos, hr]
  exact ⟨_, rfl, hq', hsize, rfl⟩

theorem process_handles {inbox : Inbox} {f : List UInt8} {fs : List (List UInt8)}
    (h : Represents inbox.queue (f :: fs)) (hlen : lenField f = f.length)
    (hmin : headerSize + 1 ≤ f.length) :
    ∃ inbox' c, processIncomingFrame inbox = (inbox', .succeed, some c) ∧ Handles f c ∧
      Represents inbox'.queue fs ∧ inbox'.queue.size = inbox.queue.size := by
  have hlt := h.frame_lt (List.mem_cons_self (a := f))
  obtain ⟨inbox', hp, hq, hsize, _⟩ := process_read h (List.ne_nil_of_length_pos (by omega))
  exact ⟨inbox', _, hp, handlerCall_handles inbox.bufferRead hlen hmin hlt, hq, hsize⟩

/-- Handing the oldest frame over takes it out of the inbox. -/
theorem Receives.process {l : Link} {r : Receiver} {bs f : List UInt8} {fs : List (List UInt8)}
    (h : Receives l r bs (f :: fs)) (hne : f ≠ []) :
    Receives l { r with inbox := (processIncomingFrame r.inbox).1 } bs fs := by
  obtain ⟨inbox, hp, hq, hsize, _⟩ := process_read h.represents hne
  rw [hp]
  exact ⟨⟨h.holds.size_eq, h.holds.fits, h.holds.bytes⟩, hq, hsize.trans h.size_eq⟩

/-- An empty inbox hands over nothing. -/
theorem process_empty {inbox : Inbox} (h : Represents inbox.queue []) :
    ∃ inbox', processIncomingFrame inbox = (inbox', .failed, none) ∧ inbox'.queue = inbox.queue := by
  unfold processIncomingFrame
  rw [read_empty h]
  exact ⟨_, rfl, rfl⟩

private theorem groups_nonempty {frames : List (List UInt8)} {groups : List (List (List UInt8))}
    (h : List.Forall₂ Assembler.Cuts frames groups) : ∀ c ∈ groups.flatten, c ≠ [] := by
  induction h with
  | nil => simp
  | cons hd _ ih =>
    intro c hc
    rw [List.flatten_cons, List.mem_append] at hc
    exact hc.elim (hd.nonempty c) (ih c)

private theorem recognises_cuts {frames : List (List UInt8)} {groups : List (List (List UInt8))}
    (h : List.Forall₂ Assembler.Cuts frames groups)
    (hwf : ∀ f ∈ frames, WellFormed f ∧ f.length ≤ 254) :
    List.Forall₂ (fun f g => Assembler.Recognises Link.bth.rules f ∧ Assembler.Cuts f g) frames groups := by
  induction h with
  | nil => exact List.Forall₂.nil
  | cons hd _ ih =>
    rw [List.forall_mem_cons] at hwf
    exact List.Forall₂.cons ⟨recognises_of_wellFormed hwf.1.1 hwf.1.2, hd⟩ (ih hwf.2)

private theorem whole_run {r : Receiver} (h : Tracks .bth r ⟨[], []⟩)
    {frames : List (List UInt8)} {groups : List (List (List UInt8))}
    (hcut : List.Forall₂ Assembler.Cuts frames groups)
    (hwf : ∀ f ∈ frames, WellFormed f ∧ f.length ≤ 254)
    (hfit : total recordSize frames ≤ Link.bth.bufferSize - 1) :
    ∃ r', Runs.run Link.bth.call r groups.flatten = some r' ∧ Receives .bth r' [] frames := by
  obtain ⟨r', hr, ht⟩ := run_tracks .bth h _ (groups_nonempty hcut)
  rw [Assembler.run_frames (recognises_cuts hcut hwf)] at ht
  have hst : stored .bth frames = frames := stored_of_wellFormed (fun f hf => (hwf f hf).1) hfit
  refine ⟨r', hr, ?_⟩
  rw [← hst]
  exact ht

def usedOnce : Option Receiver :=
  (Link.bth.call (Link.bth.init (fun _ => 0) (fun _ => 0)) [0xAA, 0x55, 0x01, 0x02, 0x08, 0x00, 0xF0, 0x04]).map
    fun r => { r with inbox := (processIncomingFrame r.inbox).1 }

theorem usedOnce_empty : ∃ r, usedOnce = some r ∧ r.inbox.queue.indexRead = 10 ∧ Receives .bth r [] [] := by
  have hf : WellFormed [0xAA, 0x55, 0x01, 0x02, 0x08, 0x00, 0xF0, 0x04] := by decide
  obtain ⟨r, hcall, hr⟩ := call_tracks .bth (init_tracks .bth (fun _ => 0) (fun _ => 0))
    (List.cons_ne_nil _ _)
  rw [Assembler.feed_last (recognises_of_wellFormed hf (by decide)) rfl] at hr
  have hindex : usedOnce.map (fun r => r.inbox.queue.indexRead) = some 10 := by decide +kernel
  rw [usedOnce, hcall, Option.map_some, Option.map_some, Option.some.injEq] at hindex
  rw [usedOnce, hcall]
  exact ⟨_, rfl, hindex, hr.process (List.cons_ne_nil _ _)⟩

def CutsAtFrameEnds (chunks frames : List (List UInt8)) : Prop :=
  ∃ groups : List (List (List UInt8)), groups.flatten = chunks ∧ groups.map List.flatten = frames

private theorem cuts_of_groups {groups : List (List (List UInt8))}
    (h : ∀ c ∈ groups.flatten, c ≠ []) :
    List.Forall₂ Assembler.Cuts (groups.map List.flatten) groups := by
  induction groups with
  | nil => exact List.Forall₂.nil
  | cons g groups ih =>
    rw [List.flatten_cons, List.forall_mem_append] at h
    exact List.Forall₂.cons ⟨rfl, h.1⟩ (ih h.2)

private theorem flatten_filter {groups : List (List (List UInt8))} (h : ∀ c ∈ groups.flatten, c ≠ []) :
    (groups.filter (fun g => g.flatten ≠ [])).flatten = groups.flatten := by
  induction groups with
  | nil => rfl
  | cons g groups ih =>
    rw [List.flatten_cons, List.forall_mem_append] at h
    by_cases hg : g.flatten = []
    · have he : g = [] := by
        cases g with
        | nil => rfl
        | cons c g => simp [h.1 c (by simp)] at hg
      rw [List.filter_cons_of_neg (by simpa using hg), ih h.2, he]
      rfl
    · rw [List.filter_cons_of_pos (by simpa using hg), List.flatten_cons, ih h.2, List.flatten_cons]

private theorem amount_filter (fs : List (List UInt8)) :
    Assembler.amount (fs.filter (· ≠ [])) = Assembler.amount fs := by
  induction fs with
  | nil => rfl
  | cons f fs ih =>
    by_cases hf : f = []
    · rw [List.filter_cons_of_neg (by simpa using hf), ih, hf, Assembler.amount_cons]
      simp
    · rw [List.filter_cons_of_pos (by simpa using hf), Assembler.amount_cons, Assembler.amount_cons, ih]

private theorem suffix_eq_of_amount {fs gs : List (List UInt8)} (h : fs <:+ gs)
    (hne : ∀ g ∈ gs, g ≠ []) (hle : Assembler.amount gs ≤ Assembler.amount fs) : fs = gs := by
  obtain ⟨ds, rfl⟩ := h
  cases ds with
  | nil => rfl
  | cons d ds =>
    have hpos := List.length_pos_of_ne_nil (hne d (by simp))
    simp only [Assembler.amount_append, Assembler.amount_cons] at hle
    omega

/-- If the ring holds every frame of the stream, every frame end is a chunk end: nothing
is recognised twice, so what was recognised is the whole stream. -/
private theorem cuts_of_stored {frames chunks : List (List UInt8)}
    (hflat : chunks.flatten = frames.flatten) (hne : ∀ c ∈ chunks, c ≠ [])
    (hst : stored .bth (Assembler.run Link.bth.rules ⟨[], []⟩ chunks).accepted = frames) :
    CutsAtFrameEnds chunks frames := by
  have hsuf := stored_suffix .bth (Assembler.run Link.bth.rules ⟨[], []⟩ chunks).accepted
  have hcons := Assembler.run_conserves (rules_sound .bth) ⟨[], []⟩ chunks
  rw [hst] at hsuf
  revert hsuf hcons
  generalize hacc : (Assembler.run Link.bth.rules ⟨[], []⟩ chunks).accepted = accepted
  intro hsuf hcons
  have hchunks : Assembler.amount chunks = Assembler.amount frames := congrArg List.length hflat
  have hle : Assembler.amount frames ≤ Assembler.amount (accepted.filter (· ≠ [])) := by
    obtain ⟨ds, hds⟩ := hsuf
    rw [← hds, Assembler.amount_append]
    omega
  simp only [Assembler.amount_nil, List.length_nil] at hcons
  have hfilter := amount_filter accepted
  have hframes : frames = accepted.filter (· ≠ []) :=
    suffix_eq_of_amount hsuf (fun g hg => by simpa using List.of_mem_filter hg) (by omega)
  obtain ⟨groups, hg, hmap⟩ : ∃ groups : List (List (List UInt8)), groups.flatten = [] ++ chunks ∧
      groups.map List.flatten = accepted :=
    Assembler.groups_of_complete (rules_sound .bth) hne hacc (by rw [List.nil_append]; omega)
  rw [List.nil_append] at hg
  refine ⟨groups.filter (fun g => g.flatten ≠ []), ?_, ?_⟩
  · rw [flatten_filter (by rw [hg]; exact hne), hg]
  · rw [hframes, ← hmap, List.filter_map]
    rfl

/-- Whatever lies behind a completed frame in the chunk that completes it is dropped. -/
theorem tail_dropped {l : Link} {r : Receiver} {bs chunk more f : List UInt8}
    {content : List (List UInt8)} (h : Receives l r bs content) (hf : WellFormed f)
    (hfit : f.length ≤ l.maxFrameSize) (hbs : bs ++ chunk = f) :
    ∃ r', l.dataReceived r (chunk ++ more) = some ⟨r', some f⟩ ∧ Receives l r' [] (store l content f) := by
  have hfill : Assembler.fill l.maxFrameSize bs (chunk ++ more) =
      f ++ more.take (l.maxFrameSize - f.length) := by
    rw [Assembler.fill, ← List.append_assoc, hbs, List.take_append, List.take_of_length_le hfit]
  have hmin := hf.minimum
  have hne : Assembler.fill l.maxFrameSize bs (chunk ++ more) ≠ [] := by
    rw [hfill]
    exact List.append_ne_nil_of_left_ne_nil (List.ne_nil_of_length_pos (by omega)) _
  have hacc : accept (Assembler.fill l.maxFrameSize bs (chunk ++ more)) = some f := by
    rw [hfill]
    exact accept_append hf _
  obtain ⟨r', hd, hr, _⟩ := dataReceived_receives l h hne
  rw [hacc] at hd hr
  rw [leftover_of_some hacc] at hr
  exact ⟨r', hd, hr⟩

/-- A chunked stream of frames arrives whole exactly when no chunk crosses a frame
end, so all such chunkings agree; what follows a frame in its last chunk is dropped. -/
theorem chunking_complete_iff {r : Receiver} (hempty : Receives .bth r [] [])
    (frames chunks : List (List UInt8)) (hwf : ∀ f ∈ frames, WellFormed f ∧ f.length ≤ 254)
    (hfit : total recordSize frames ≤ Link.bth.bufferSize - 1)
    (hflat : chunks.flatten = frames.flatten) (hne : ∀ c ∈ chunks, c ≠ []) :
    (∃ r', Runs.run Link.bth.call r chunks = some r' ∧
      (Represents r'.inbox.queue frames ↔ CutsAtFrameEnds chunks frames)) ∧
    ∀ r bs content chunk more f, Receives .bth r bs content → f ∈ frames → bs ++ chunk = f →
      ∃ r', btItfDataReceived r (chunk ++ more) = some ⟨r', some f⟩ ∧
        Receives .bth r' [] (store .bth content f) := by
  refine ⟨?_, fun r bs content chunk more f h hf hbs =>
    tail_dropped h (hwf f hf).1 (hwf f hf).2 hbs⟩
  obtain ⟨r₁, hr, ht⟩ := run_tracks .bth (s := ⟨[], []⟩) hempty chunks hne
  refine ⟨r₁, hr, fun hq => cuts_of_stored hflat hne (ht.represents.unique hq), ?_⟩
  rintro ⟨groups, rfl, rfl⟩
  obtain ⟨r', hr', h⟩ := whole_run hempty (cuts_of_groups hne) hwf hfit
  rw [Option.some.inj (hr.symm.trans hr')]
  exact h.represents

/-- A chunk for each of two frames loses nothing. -/
theorem chunking_complete_two_frames :
    let f := [0xAA, 0x55, 0x01, 0x02, 0x08, 0x00, 0xF0, 0x04]
    let g := [0xAA, 0x55, 0x00, 0x01, 0x09, 0x00, 0x10, 0x07, 0xE0]
    ∃ r r', usedOnce = some r ∧ r.inbox.queue.indexRead = 10 ∧
      Runs.run Link.bth.call r [f, g] = some r' ∧ Represents r'.inbox.queue [f, g] := by
  intro f g
  obtain ⟨r, hused, hindex, hempty⟩ := usedOnce_empty
  obtain ⟨⟨r', hr', hiff⟩, _⟩ := chunking_complete_iff hempty [f, g] [f, g]
    (by decide) (by decide) rfl (by decide)
  exact ⟨r, r', hused, hindex, hr', hiff.mpr ⟨[[f], [g]], rfl, rfl⟩⟩

/-- One chunk for both frames loses the second. -/
theorem one_chunk_loses_frame :
    let f := [0xAA, 0x55, 0x01, 0x02, 0x08, 0x00, 0xF0, 0x04]
    let g := [0xAA, 0x55, 0x00, 0x01, 0x09, 0x00, 0x10, 0x07, 0xE0]
    WellFormed f ∧ WellFormed g ∧
      ∃ r, Runs.run Link.bth.call (Link.bth.init (fun _ => 0) (fun _ => 0)) [f ++ g] = some r ∧
        ¬ Represents r.inbox.queue [f, g] := by
  intro f g
  have hf : WellFormed f := by decide
  obtain ⟨r, hd, hr⟩ : ∃ r, Link.bth.dataReceived (Link.bth.init (fun _ => 0) (fun _ => 0)) (f ++ g) =
      some ⟨r, some f⟩ ∧ Receives .bth r [] (store .bth [] f) :=
    tail_dropped (init_tracks .bth (fun _ => 0) (fun _ => 0)) hf (by decide) (List.nil_append f)
  refine ⟨hf, by decide, r, ?_, fun hq => ?_⟩
  · rw [Runs.run, Link.call, hd]
    rfl
  · exact absurd (hr.represents.unique hq) (by decide)

end SidFirmware.FrameReceiver
