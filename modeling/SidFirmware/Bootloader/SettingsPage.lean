import SidFirmware.Bootloader.Delivery

/-! The settings page during an update. Whatever was on it, and whatever is still on its way to it,
a write of the settings leaves exactly them there once the flash is done. -/
namespace SidFirmware.Bootloader
open Memory NorFlash FlashQueue
variable {env : Env} {s : Sys} {m₀ : Flash} {st : Settings} {q : FlashQueue.State Source}

/-- The page follows the operations that have been taken, and no row of an image goes to it. -/
structure Page (m₀ : Flash) (q : FlashQueue.State Source) : Prop where
  queue : Inv q
  contents : ∀ j, 0x7F000 ≤ j → j < 0x80000 → Contents m₀ j q
  own : ∀ t ∈ q.taken, ∀ i dest len offset, t.1 = .write (.dataBuf i) dest len offset → dest + len ≤ 0x7F000

def Stored (m₀ : Flash) (st : Settings) (q : FlashQueue.State Source) : Prop :=
  cells (history m₀ q.taken) bootloaderSettingsAddress.toNat settingsSize = st.bytes

theorem waiting_request {call : Call Source} {op : Op Source} (h : Core q)
    (hop : check env.port call = .ok op) (hsucc : (request env.port q call).2 = .success) :
    waiting (request env.port q call).1 = waiting q ++ [op] := by
  unfold request at hsucc ⊢
  rw [hop] at hsucc ⊢
  dsimp only at hsucc ⊢
  split at hsucc
  · cases hsucc
  · rename_i hfull
    rw [if_neg hfull]
    have hcells : ∀ q' : FlashQueue.State Source, waiting (queueStart env.port q') = waiting q' := by
      intro q'
      unfold queueStart queueProcess
      dsimp only
      cases q'.inFlight <;> split_ifs <;> rfl
    rw [hcells]
    exact waiting_enqueue h.rp_lt (lt_of_le_of_ne h.cnt_le hfull) op

/-- The rows of an image may change: nothing that waits for the page reads them. -/
theorem Page.row (hacc : ∀ c, env.accepts c = true) (h : Page m₀ q) (i : Nat) (bytes : Nat → UInt8) :
    Page m₀ { q with ram := Function.update q.ram (.dataBuf i) bytes } := by
  have hport : ∀ c, env.port.accepts c = true := hacc
  refine ⟨h.queue.step hport (e := .ram _) rfl, fun j hj hj' => ?_, h.own⟩
  refine (h.contents j hj hj').step hport h.queue (e := .ram (Function.update q.ram (.dataBuf i) bytes))
    (undisturbed_of_forall fun p hp hcov => ?_) rfl
  cases p with
  | erase page progress n => rfl
  | write src dest len offset =>
    rw [Op.data, Op.data, Function.update_of_ne ?_]
    rintro rfl
    obtain ⟨k, _, hget⟩ := Core.waiting_recent h.queue.toCore hp
    obtain ⟨t, ht, heq⟩ := List.mem_map.mp (List.mem_reverse.mp (List.mem_of_getElem? hget))
    have hend := h.own t ht i dest len 0 heq
    have hin := hcov.2
    omega

theorem Page.request (hacc : ∀ c, env.accepts c = true) (h : Page m₀ q) {call : Call Source}
    (hcall : ∀ op, check env.port call = .ok op →
      ∀ i dest len offset, op = .write (.dataBuf i) dest len offset → dest + len ≤ 0x7F000) :
    Page m₀ (request env.port q call).1 := by
  have hport : ∀ c, env.port.accepts c = true := hacc
  refine ⟨h.queue.request hport call, fun j hj hj' =>
    (h.contents j hj hj').request hport h.queue.toCore call, ?_⟩
  obtain ⟨_, ⟨htaken, _⟩ | ⟨op, hop, _, htaken⟩⟩ := request_frame env.port q call <;> rw [htaken]
  · exact h.own
  · simp only [List.mem_append, List.mem_singleton]
    rintro t (ht | rfl)
    · exact h.own t ht
    · exact hcall op hop

theorem keptByImage_page (hacc : ∀ c, env.accepts c = true) (m₀ : Flash) (lo : Nat) :
    KeptByImage env lo areaEnd (Page m₀) := by
  refine ⟨fun q i bytes h => h.row hacc i bytes, fun q call h hcall => h.request hacc fun op hop => ?_⟩
  rintro i dest len offset rfl
  obtain ⟨⟨_, _, hlt⟩, _⟩ := sound_of_check hop
  have hend := (hcall _ hop (dest + len - 1) ⟨by omega, by omega⟩).2
  rw [areaEnd_eq] at hend
  omega

theorem keptBySettings_page (hacc : ∀ c, env.accepts c = true) (m₀ : Flash) :
    KeptBySettings env (Page m₀) := by
  have hport : ∀ c, env.port.accepts c = true := hacc
  have herase : ∀ q, Page m₀ q → Page m₀ (FlashQueue.request env.port q settingsErase).1 := by
    intro q h
    refine h.request hacc fun op hop => ?_
    obtain ⟨_, rfl⟩ := check_erase hop
    exact nofun
  refine ⟨herase, fun q bytes h hsucc => ?_⟩
  have hq := herase q h
  have hop : check env.port settingsErase = .ok (.erase 127 0 1) := rfl
  have hwaiting := waiting_request h.queue.toCore hop hsucc
  generalize (FlashQueue.request env.port q settingsErase).1 = q' at hq hwaiting
  -- The copy of the settings may still be read by an earlier store, but then the page is erased after it.
  have hcopy : Page m₀ { q' with ram := Function.update q'.ram .tempSettings bytes } := by
    refine ⟨hq.queue.step hport (e := .ram _) rfl, fun j hj hj' => ?_, hq.own⟩
    refine (hq.contents j hj hj').step hport hq.queue (e := .ram (Function.update q'.ram .tempSettings bytes))
      ?_ rfl
    change Undisturbed j q'.ram (Function.update q'.ram .tempSettings bytes) (waiting q')
    rw [hwaiting]
    refine undisturbed_of_wipes _ _ _ ?_
    change 127 * 4096 ≤ j ∧ j < (127 + 1) * 4096
    omega
  refine hcopy.request hacc fun op hop => ?_
  obtain ⟨_, _, _, rfl⟩ := check_write hop
  exact nofun

theorem cells_getD (bytes : List UInt8) : cells (fun i => (bytes[i]?).getD 0) 0 bytes.length = bytes := by
  apply List.ext_getElem (by simp)
  intro k _ hk
  rw [cells_getElem, Nat.zero_add]
  simp [hk]

/-- An erasure of the page and a store behind it leave what is stored. -/
theorem history_store (m : Flash) (taken : List (Op Source × List UInt8)) (src : Source) {bytes : List UInt8}
    (hlen : bytes.length = settingsSize) :
    cells (history m (taken ++ [(.erase 127 0 1, []), (.write src 0x7F000 settingsSize 0, bytes)]))
      bootloaderSettingsAddress.toNat settingsSize = bytes := by
  have hsplit : taken ++ [(Op.erase 127 0 1, []), (Op.write src 0x7F000 settingsSize 0, bytes)] =
      taken ++ [(.erase 127 0 1, [])] ++ [(.write src 0x7F000 settingsSize 0, bytes)] := by
    rw [List.append_assoc]
    rfl
  rw [hsplit, history_append, history_append, ← hlen]
  refine cells_program ((erased_erase (history m taken) 0x7F000 4096).mono le_rfl ?_)
  rw [hlen, settingsSize]
  decide

/-- A store that is taken takes the bytes that have been copied for it. -/
theorem taken_store {bytes : List UInt8} (hlen : bytes.length = settingsSize)
    (hsucc : (request env.port { q with
      ram := Function.update q.ram .tempSettings fun i => (bytes[i]?).getD 0 } settingsStore).2 = .success) :
    (request env.port { q with
      ram := Function.update q.ram .tempSettings fun i => (bytes[i]?).getD 0 } settingsStore).1.taken =
      q.taken ++ [(.write .tempSettings 0x7F000 settingsSize 0, bytes)] := by
  obtain ⟨_, ⟨_, hne⟩ | ⟨op, hop, _, htaken⟩⟩ := request_frame env.port
    { q with ram := Function.update q.ram .tempSettings fun i => (bytes[i]?).getD 0 } settingsStore
  · exact absurd hsucc hne
  · obtain ⟨_, _, _, rfl⟩ := check_write hop
    have hbytes := cells_getD bytes
    rw [hlen] at hbytes
    rw [htaken, Op.data]
    dsimp only
    rw [Function.update_self, hbytes]
    rfl

/-- A write of the settings that is taken stores them, with their check sum. -/
theorem settingsWrite_stored (m₀ : Flash) (hok : (settingsWrite env s).2 = true) :
    Stored m₀ s.settings.withCrc (settingsWrite env s).1.q ∧
      (settingsWrite env s).1.settings = s.settings.withCrc := by
  unfold settingsWrite flashCall at hok ⊢
  dsimp only at hok ⊢
  split at hok
  · rename_i herase
    rw [if_pos herase]
    refine ⟨?_, rfl⟩
    obtain ⟨_, ⟨_, hne⟩ | ⟨op, hop, _, htaken⟩⟩ := request_frame env.port s.q settingsErase
    · exact absurd herase hne
    obtain ⟨_, rfl⟩ := check_erase hop
    have hstore := taken_store (Settings.bytes_length s.settings.withCrc)
      (of_decide_eq_true hok)
    have heq := hstore.trans (congrArg (· ++ _) htaken)
    refine Eq.trans (congrArg (fun l => cells (history m₀ l) _ _) heq) ?_
    rw [List.append_assoc]
    exact history_store m₀ s.q.taken .tempSettings (Settings.bytes_length _)
  · cases hok

theorem Page.event (hacc : ∀ c, env.accepts c = true) (h : Page m₀ q) {e : FlashQueue.Event Source}
    {q' : FlashQueue.State Source} (hkept : ∀ j, Kept j q e) (hq : FlashQueue.step env.port q e = some q')
    (htaken : q'.taken = q.taken) : Page m₀ q' := by
  have hport : ∀ c, env.port.accepts c = true := hacc
  refine ⟨h.queue.step hport hq, fun j hj hj' =>
    (h.contents j hj hj').step hport h.queue (hkept j) hq, ?_⟩
  rw [htaken]
  exact h.own

/-- The page follows a peer that writes in step. -/
theorem Page.step (hacc : ∀ c, env.accepts c = true) (h : Page m₀ s.q) (hs : Sound env s) (hp : Placed s)
    {e : SysEvent} (hin : InStep s e) {s' : Sys} (hstep : s.step env e = some s') : Page m₀ s'.q := by
  cases e with
  | req req =>
    cases hstep
    refine (hp.onReq hs (keptByImage_page hacc m₀ env.appStart.toNat) (keptBySettings_page hacc m₀) h
      (fun hv => (hs.area hv).2.1) le_rfl Res.zero req (Or.inr ?_)).2
    exact fun hwrite => hin (hwrite.imp fun _ hd => congrArg SysEvent.req hd)
  | done success followed =>
    obtain ⟨q, hq, rfl⟩ := Option.map_eq_some_iff.mp hstep
    exact h.event (e := .done success followed []) hacc (fun _ => trivial) hq (step_done hq).1
  | foreign =>
    obtain ⟨q, hq, rfl⟩ := Option.map_eq_some_iff.mp hstep
    exact h.event (e := .foreign) hacc (fun _ => trivial) hq (step_foreign hq).1

/-- Once the flash is done, and has given up nothing, the page holds what is stored. -/
theorem Page.saved (h : Page m₀ q) (hst : Stored m₀ st q) (hdone : waiting q = [])
    (hgood : ∀ r ∈ q.reports, r.2 = .success) :
    cells q.flash bootloaderSettingsAddress.toNat settingsSize = st.bytes := by
  rw [← hst]
  refine cells_congr fun k hk => ?_
  rw [settings_place, settingsSize] at *
  exact (h.contents (0x7F000 + k) (by omega) (by omega)).arrived hdone hgood

theorem Started.page (h : Started env s) : Page s.q.flash s.q := by
  obtain ⟨op, hq⟩ := h.queue
  rw [hq]
  exact ⟨Inv.initial op _ _, fun j _ _ => Contents.initial op _ _ j, nofun⟩

/-- A paced run in which no command is refused keeps the page. -/
theorem paced_page {s₀ : Sys} {sent₀ : List UInt8} (h : Started env s₀) (hr : Received s₀ sent₀)
    (hd : Delivered s₀.q.flash s₀ sent₀) (hcur : s₀.currentDataBuffer < 4) {es : List SysEvent} {x : Session}
    (hpaced : Runs.Along (Session.step env) Paced ⟨s₀, sent₀⟩ es)
    (hrun : Runs.run (Session.step env) ⟨s₀, sent₀⟩ es = some x) (hg : Granted x.dev.q) :
    Arriving env s₀.q.flash x ∧ Page s₀.q.flash x.dev.q := by
  have hacc : ∀ c, env.granting.accepts c = true := fun _ => rfl
  obtain ⟨harriving, hpage⟩ := Session.run_granted
    (I := fun x => Arriving env.granting s₀.q.flash x ∧ Page s₀.q.flash x.dev.q)
    (fun x e x' hx hp hs => by
      refine ⟨hx.1.step hacc hp hs, ?_⟩
      obtain ⟨s', hs', rfl⟩ := Option.map_eq_some_iff.mp hs
      refine hx.2.step hacc hx.1.guarded.sound hx.1.guarded.placed ?_ hs'
      rintro ⟨data, rfl⟩ hdata
      exact (hp.2 ⟨data, rfl⟩ hdata).1)
    h.sound ⟨arriving_granting.mpr (h.arriving hr hd hcur), h.page⟩ hpaced hrun hg
  exact ⟨arriving_granting.mp harriving, hpage⟩

def Quiet : SysEvent → Prop
  | .req _ => False
  | _ => True

structure Onward (q q' : FlashQueue.State Source) : Prop where
  taken : q'.taken = q.taken
  inv : Inv q'
  contents : ∀ m₀ j, Contents m₀ j q → Contents m₀ j q'

/-- Left to itself, the device changes in its queue alone, and the flash goes on to what it has taken as
long as no command is refused. -/
theorem quiet_run {es : List SysEvent} (hquiet : ∀ e ∈ es, Quiet e) {s' : Sys}
    (hrun : Runs.run (Sys.step env) s es = some s') :
    ∃ q, s' = { s with q } ∧ s.q.reports <+: q.reports ∧ (Inv s.q → Granted q → Onward s.q q) := by
  have hevent : ∀ {q q' : FlashQueue.State Source} {e : FlashQueue.Event Source}, (∀ j, Kept j q e) →
      FlashQueue.step env.port q e = some q' → q'.taken = q.taken →
      s.q.reports <+: q.reports ∧ (Inv s.q → Granted q → Onward s.q q) →
      s.q.reports <+: q'.reports ∧ (Inv s.q → Granted q' → Onward s.q q') := by
    rintro q q' e hkept hq hsame ⟨hreports, hon⟩
    have hmore := FlashQueue.step_reports hq
    refine ⟨hreports.trans hmore, fun h hg => ?_⟩
    obtain ⟨htaken, hinv, hc⟩ := hon h (hg.before hmore)
    have hq' := FlashQueue.step_granting hq hg
    exact ⟨hsame.trans htaken, hinv.step (fun _ => rfl) hq',
      fun m₀ j hj => (hc m₀ j hj).step (fun _ => rfl) hinv (hkept j) hq'⟩
  have hstep : ∀ (t : Sys) (e : SysEvent) (t' : Sys),
      (∃ q, t = { s with q } ∧ s.q.reports <+: q.reports ∧ (Inv s.q → Granted q → Onward s.q q)) →
      Quiet e → t.step env e = some t' →
      ∃ q, t' = { s with q } ∧ s.q.reports <+: q.reports ∧ (Inv s.q → Granted q → Onward s.q q) := by
    rintro t e t' ⟨q, rfl, hkeep⟩ hquiet hstep
    cases e with
    | req req => exact hquiet.elim
    | done success followed =>
      obtain ⟨q', hq, rfl⟩ := Option.map_eq_some_iff.mp hstep
      exact ⟨q', rfl, hevent (e := .done success followed []) (fun _ => trivial) hq (step_done hq).1 hkeep⟩
    | foreign =>
      obtain ⟨q', hq, rfl⟩ := Option.map_eq_some_iff.mp hstep
      exact ⟨q', rfl, hevent (e := .foreign) (fun _ => trivial) hq (step_foreign hq).1 hkeep⟩
  exact Runs.run_invariant hstep ⟨s.q, rfl, List.prefix_rfl, fun h _ => ⟨rfl, h, fun _ _ hj => hj⟩⟩ hquiet hrun

end SidFirmware.Bootloader
