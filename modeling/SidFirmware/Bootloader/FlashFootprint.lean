import SidFirmware.Bootloader.FlashOrder

/-! Which cells the queue of `nrf_fstorage_sd` can change: those of operations that it has taken,
and only when the SoftDevice ends one of its commands. -/
namespace SidFirmware.Bootloader.FlashQueue
open Memory NorFlash
variable {Src : Type} {port : Port Src} {s : State Src}

def Op.Within (lo hi : Nat) (p : Op Src) : Prop := ∀ j, p.Covers j → lo ≤ j ∧ j < hi

theorem Op.covers_fresh (p : Op Src) (j : Nat) : p.fresh.Covers j ↔ p.Covers j := by
  cases p <;> rfl

/-- A command leaves the cells outside its operation. -/
theorem Op.run_of_not_covers {p : Op Src} (h : p.Sound) (ram : Src → Nat → UInt8) (m : Flash) {j : Nat}
    (hj : ¬ p.Covers j) : p.command.run ram m j = m j := by
  cases p with
  | write src dest len offset =>
    obtain ⟨hlen, hoff, hlt⟩ := h
    simp only [Op.Covers] at hj
    refine program_outside m _ _ ?_
    rw [cells_length]
    simp only [programUnit, maxWriteSize]
    omega
  | erase page progress n =>
    change progress < n at h
    simp only [Op.Covers, Nat.add_mul] at hj
    refine erase_outside m _ _ ?_
    simp only [eraseUnit] at *
    omega

/-- Everything that waits has been taken. -/
theorem Core.covers_of_waiting (h : Core s) {p : Op Src} (hp : p ∈ waiting s) {j : Nat} (hj : p.Covers j) :
    ∃ t ∈ s.taken, t.1.Covers j := by
  have hmem : p.fresh ∈ s.taken.map Prod.fst := by
    rw [h.taken]
    exact List.mem_append_right _ (List.mem_map_of_mem hp)
  obtain ⟨t, ht, heq⟩ := List.mem_map.mp hmem
  exact ⟨t, ht, heq ▸ (p.covers_fresh j).mpr hj⟩

/-- Whole words between the master boot record and the end of the flash may be written. -/
theorem check_write_ok (hport : port.startAddr = 0x1000 ∧ port.endAddr = 0x80000) {dest len : Nat} {src : Src}
    (haligned : port.aligned src = true) (hlen : 0 < len) (hword : len % 4 = 0) (hdest : dest % 4 = 0)
    (hlow : 0x1000 ≤ dest) (hhigh : dest + len ≤ 0x80000) :
    check port (.write dest src len) = .ok (.write src dest len 0) := by
  have hbound : addrWithinBounds port dest len = true := by
    rw [addrWithinBounds, decide_eq_true_iff, hport.1, hport.2]
    omega
  rw [check, if_neg (by rw [programUnit]; omega), if_neg ?_]
  rintro (h | h | h)
  · exact h hdest
  · exact Bool.noConfusion (haligned.symm.trans h)
  · exact Bool.noConfusion (hbound.symm.trans h)

/-- A page between the master boot record and the end of the flash may be erased. -/
theorem check_erase_ok (hport : port.startAddr = 0x1000 ∧ port.endAddr = 0x80000) {addr : Nat}
    (hpage : addr % 4096 = 0) (hlow : 0x1000 ≤ addr) (hhigh : addr + 4096 ≤ 0x80000) :
    check port (.erase addr 1) = .ok (.erase (addr / 4096) 0 1) := by
  have hbound : addrWithinBounds port addr (1 * eraseUnit % 2 ^ 32) = true := by
    rw [addrWithinBounds, decide_eq_true_iff, eraseUnit, hport.1, hport.2]
    omega
  rw [check, if_neg Nat.one_ne_zero, if_neg ?_]
  · rfl
  · rintro (h | h)
    · exact h hpage
    · exact Bool.noConfusion (hbound.symm.trans h)

theorem queueProcess_frame (port : Port Src) (s : State Src) :
    (queueProcess port s).flash = s.flash ∧ (queueProcess port s).taken = s.taken ∧
      (queueProcess port s).ram = s.ram ∧ (queueProcess port s).cnt = s.cnt := by
  unfold queueProcess
  dsimp only
  split
  · exact ⟨rfl, rfl, rfl, rfl⟩
  · split
    · split <;> exact ⟨rfl, rfl, rfl, rfl⟩
    · exact ⟨rfl, rfl, rfl, rfl⟩

/-- A call may be taken, and changes no cell at once. -/
theorem request_frame (port : Port Src) (s : State Src) (call : Call Src) :
    (request port s call).1.flash = s.flash ∧
      (((request port s call).1.taken = s.taken ∧ (request port s call).2 ≠ .success) ∨
        ∃ op, check port call = .ok op ∧ (request port s call).2 = .success ∧
          (request port s call).1.taken = s.taken ++ [(op, op.data s.ram)]) := by
  unfold request
  cases hc : check port call with
  | error rc =>
    refine ⟨rfl, Or.inl ⟨rfl, ?_⟩⟩
    rintro rfl
    cases call with
    | write dest src len =>
      simp only [check] at hc
      split_ifs at hc <;> cases hc
    | erase pageAddr len =>
      simp only [check] at hc
      split_ifs at hc <;> cases hc
  | ok op =>
    dsimp only
    split
    · exact ⟨rfl, Or.inl ⟨rfl, fun h => RetCode.noConfusion h⟩⟩
    · unfold queueStart
      split
      · obtain ⟨hflash, htaken, _, _⟩ := queueProcess_frame port (enqueue s op)
        exact ⟨hflash, Or.inr ⟨op, rfl, rfl, htaken⟩⟩
      · exact ⟨rfl, Or.inr ⟨op, rfl, rfl, rfl⟩⟩

/-- A call that is not taken leaves the queue. -/
theorem request_refused {call : Call Src} (h : (request port s call).2 ≠ .success) :
    (request port s call).1 = s := by
  revert h
  unfold request
  cases check port call with
  | error rc => exact fun _ => rfl
  | ok op =>
    dsimp only
    split
    · exact fun _ => rfl
    · exact fun h => absurd rfl h

/-- A call that is taken is one more that waits. -/
theorem request_cnt (port : Port Src) (s : State Src) (call : Call Src) :
    (request port s call).1.cnt = if (request port s call).2 = .success then s.cnt + 1 else s.cnt := by
  obtain ⟨_, ⟨_, hne⟩ | ⟨op, hop, hsucc, _⟩⟩ := request_frame port s call
  · rw [if_neg hne, request_refused hne]
  · rw [if_pos hsucc]
    revert hsucc
    unfold request
    rw [hop]
    dsimp only
    split
    · exact nofun
    · intro _
      unfold queueStart
      split
      · exact (queueProcess_frame port (enqueue s op)).2.2.2
      · rfl

/-- A call reads memory only. -/
theorem request_ram (port : Port Src) (s : State Src) (call : Call Src) :
    (request port s call).1.ram = s.ram := by
  unfold request
  cases check port call with
  | error rc => rfl
  | ok op =>
    dsimp only
    split
    · rfl
    · unfold queueStart
      split
      · exact (queueProcess_frame port (enqueue s op)).2.2.1
      · rfl

/-- Where there is room, only the checks refuse a call. -/
theorem request_ok {s : State Src} {call : Call Src} {op : Op Src} (hop : check port call = .ok op)
    (hroom : s.cnt < queueSize) : (request port s call).2 = .success := by
  unfold request
  rw [hop]
  dsimp only
  rw [if_neg (Nat.ne_of_lt hroom)]

theorem taken_request (port : Port Src) (s : State Src) (call : Call Src) :
    s.taken <+: (request port s call).1.taken := by
  obtain ⟨_, ⟨htaken, _⟩ | ⟨op, _, _, htaken⟩⟩ := request_frame port s call
  · rw [htaken]
  · rw [htaken]
    exact List.prefix_append _ _

theorem foldl_request_frame (port : Port Src) (s : State Src) (calls : List (Call Src)) :
    (calls.foldl (fun s call => (request port s call).1) s).flash = s.flash ∧
      s.taken <+: (calls.foldl (fun s call => (request port s call).1) s).taken := by
  induction calls generalizing s with
  | nil => exact ⟨rfl, List.prefix_rfl⟩
  | cons call calls ih =>
    obtain ⟨hflash, htaken⟩ := ih (request port s call).1
    exact ⟨hflash.trans (request_frame port s call).1, (taken_request port s call).trans htaken⟩

theorem onOwn_frame (port : Port Src) (s : State Src) (success : Bool) (calls : List (Call Src)) :
    (onOwn port s success calls).flash = s.flash ∧ s.taken <+: (onOwn port s success calls).taken := by
  have hop : (onOperation s success).1.flash = s.flash ∧ (onOperation s success).1.taken = s.taken := by
    unfold onOperation
    dsimp only
    split_ifs <;> exact ⟨rfl, rfl⟩
  unfold onOwn
  dsimp only
  split
  · obtain ⟨hflash, htaken⟩ := foldl_request_frame port
      { queueAdvance (onOperation s success).1 with
        ongoing := false
        reports := (onOperation s success).1.reports ++
          [((onOperation s success).1.op (onOperation s success).1.rp, if success then .success else .timeout)] }
      calls
    exact ⟨hflash.trans hop.1, hop.2 ▸ htaken⟩
  · exact ⟨hop.1, by rw [hop.2]⟩

theorem complete_frame (s : State Src) (f : Flight Src) (success followed : Bool) :
    (complete s f success followed).taken = s.taken ∧ (complete s f success followed).cnt = s.cnt ∧
      (complete s f success followed).ram = s.ram := by
  cases f <;> exact ⟨rfl, rfl, rfl⟩

/-- An event whose handler makes no calls takes nothing and leaves memory. -/
theorem step_done {success followed : Bool} {s' : State Src}
    (hs : FlashQueue.step port s (.done success followed []) = some s') :
    s'.taken = s.taken ∧ s'.cnt ≤ s.cnt ∧ s'.ram = s.ram := by
  obtain ⟨f, _, rfl⟩ := Option.map_eq_some_iff.mp hs
  obtain ⟨htaken, hcnt, hram⟩ := complete_frame s f success followed
  generalize complete s f success followed = t at htaken hcnt hram
  rw [sysEvtHandler, (queueProcess_frame port _).2.1, (queueProcess_frame port _).2.2.1,
    (queueProcess_frame port _).2.2.2, ← htaken, ← hcnt, ← hram]
  split
  · unfold onOwn finish onOperation queueAdvance
    dsimp only [List.foldl_nil]
    split_ifs <;> first | exact ⟨rfl, Nat.sub_le _ _, rfl⟩ | exact ⟨rfl, le_rfl, rfl⟩
  · exact ⟨rfl, le_rfl, rfl⟩

theorem step_foreign {s' : State Src} (hs : FlashQueue.step port s .foreign = some s') :
    s'.taken = s.taken ∧ s'.cnt ≤ s.cnt ∧ s'.ram = s.ram := by
  rw [FlashQueue.step] at hs
  cases hf : s.inFlight with
  | some f => simp [hf] at hs
  | none =>
    simp only [hf, Option.some.injEq] at hs
    rw [← hs]
    exact ⟨rfl, le_rfl, rfl⟩

/-- An event changes no cell outside the operations that waited, and what is taken stays so. -/
theorem Inv.step_frame (h : Inv s) {e : Event Src} {s' : State Src} (hs : FlashQueue.step port s e = some s') :
    s.taken <+: s'.taken ∧
      ∀ {j : Nat}, (∀ p ∈ waiting s, ¬ p.Covers j) → s'.flash j = s.flash j := by
  cases e with
  | call call =>
    cases hs
    exact ⟨taken_request port s call, fun _ => congrFun (request_frame port s call).1 _⟩
  | done success followed calls =>
    obtain ⟨f, hf, rfl⟩ := Option.map_eq_some_iff.mp hs
    have hcomplete : ∀ {j : Nat}, (∀ p ∈ waiting s, ¬ p.Covers j) →
        (complete s f success followed).flash j = s.flash j := by
      intro j hj
      cases f with
      | foreign => rfl
      | own c =>
        obtain ⟨hpos, rfl⟩ := h.own c hf
        cases success with
        | false => rfl
        | true =>
          have hhead : s.op s.rp ∈ waiting s := by
            rw [waiting_eq_cons h.rp_lt hpos]
            exact List.mem_cons_self ..
          exact Op.run_of_not_covers (h.sound _ hhead) s.ram s.flash (hj _ hhead)
    have hhandler : (sysEvtHandler port (complete s f success followed) success calls).flash =
          (complete s f success followed).flash ∧
        (complete s f success followed).taken <+:
          (sysEvtHandler port (complete s f success followed) success calls).taken := by
      unfold sysEvtHandler
      obtain ⟨hflash, htaken, _, _⟩ := queueProcess_frame port
        (if (complete s f success followed).ongoing then onOwn port (complete s f success followed) success calls
          else { complete s f success followed with pending := false })
      rw [hflash, htaken]
      split
      · exact onOwn_frame port _ success calls
      · exact ⟨rfl, List.prefix_rfl⟩
    rw [(complete_frame s f success followed).1] at hhandler
    exact ⟨hhandler.2, fun hj => (congrFun hhandler.1 _).trans (hcomplete hj)⟩
  | foreign =>
    rw [FlashQueue.step] at hs
    cases hf : s.inFlight with
    | some f => simp [hf] at hs
    | none =>
      simp only [hf, Option.some.injEq] at hs
      subst hs
      exact ⟨List.prefix_rfl, fun _ => rfl⟩
  | ram ram =>
    cases hs
    exact ⟨List.prefix_rfl, fun _ => rfl⟩

end SidFirmware.Bootloader.FlashQueue
