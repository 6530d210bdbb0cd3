import SidFirmware.Foundation.Runs
import SidFirmware.Ble.UartStream

/-! What the central receives. With one segment size the segments that left are the
messages, cut one after the other. -/
namespace SidFirmware.BleUart
open Memory Segmentation
open scoped List

variable {P : Nat → Prop}

/-- The segments that left are those of the kept messages in call order, as far as the
sender has got. -/
structure Streams (size : Nat) (t : Trace) : Prop where
  segmented : sentSegments t.uart <+: t.kept.flatMap (segments size)
  bytes : (sentSegments t.uart).flatten <+: t.kept.flatten
  lengths : ∀ tr ∈ t.uart.log, ∀ (k : Nat) (s : List UInt8), tr.sent[k]? = some s →
    s.length = min size (tr.message.length - k * size)
  whole : t.uart.txInfo.locked = false → (sentSegments t.uart).flatten = t.kept.flatten

private theorem settled_flatMap {size : Nat} {ts : List Transmission}
    (h : Settled (fun n => n = size) ts) :
    ts.flatMap Transmission.sent = (ts.map Transmission.message).flatMap (segments size) := by
  rw [List.flatMap_map]
  apply List.flatMap_congr
  intro t ht
  obtain ⟨_, rfl, hsent⟩ := h t ht
  exact hsent

theorem Settled.reverse {ts : List Transmission} (h : Settled P ts) : Settled P ts.reverse :=
  fun t ht => h t (List.mem_reverse.mp ht)

private theorem flatMap_segments_flatten {size : Nat} (hs : 1 ≤ size) (ms : List (List UInt8)) :
    (ms.flatMap (segments size)).flatten = ms.flatten := by
  induction ms with
  | nil => rfl
  | cons m ms ih =>
    rw [List.flatMap_cons, List.flatten_append, List.flatten_cons, ih, segments_flatten hs]

theorem flatten_prefix {xs ys : List (List UInt8)} (h : xs <+: ys) : xs.flatten <+: ys.flatten := by
  obtain ⟨zs, rfl⟩ := h
  rw [List.flatten_append]
  exact List.prefix_append _ _

private theorem passed_lengths {size : Nat} {m s : List UInt8} {k n : Nat}
    (h : (passed size m n)[k]? = some s) : s.length = min size (m.length - k * size) := by
  obtain ⟨hk, rfl⟩ := List.getElem?_eq_some_iff.mp h
  simp [passed, segmentAt_length]

private theorem settled_lengths {size : Nat} {ts : List Transmission}
    (h : Settled (fun n => n = size) ts) :
    ∀ tr ∈ ts, ∀ (k : Nat) (s : List UInt8), tr.sent[k]? = some s →
      s.length = min size (tr.message.length - k * size) := by
  intro tr htr k s hk
  obtain ⟨_, rfl, hsent⟩ := h tr htr
  rw [hsent] at hk
  exact passed_lengths hk

/-- With one size in use the invariant is the stream property. -/
theorem Tracks.streams {size : Nat} (hs : 1 ≤ size) {t : Trace}
    (h : Tracks (fun n => n = size) t) : Streams size t := by
  rcases h with ⟨hbase, hlock, hlog⟩ | ⟨waiting, cut, hcut, hbase, hlock, _, tr, ts, hlog, hts, hcur⟩
  · have hall : sentSegments t.uart = t.kept.flatMap (segments size) := by
      rw [sentSegments, hbase.kept_eq, settled_flatMap hlog.reverse, taken, List.append_nil]
    refine ⟨hall ▸ List.prefix_refl _, ?_, settled_lengths hlog, ?_⟩
    · rw [hall, flatMap_segments_flatten hs]
    · intro _
      rw [hall, flatMap_segments_flatten hs]
  · have hcut : cut = size := hcut
    rw [hcut] at hcur
    have hpre : sentSegments t.uart <+: t.kept.flatMap (segments size) := by
      have hsent : tr.sent <+: segments size tr.message := by
        rw [hcur.sent]
        apply passed_prefix
        rw [← hcur.length_eq]
        exact hcur.cursor
      rw [sentSegments, hbase.kept_eq, taken, hlog, List.reverse_cons, List.flatMap_append,
        settled_flatMap hts.reverse, List.map_append, List.append_assoc, List.flatMap_append]
      apply (List.prefix_append_right_inj _).mpr
      simp only [List.map_singleton, List.singleton_append, List.flatMap_cons, List.flatMap_nil,
        List.append_nil]
      exact hsent.trans (List.prefix_append _ _)
    refine ⟨hpre, ?_, ?_, ?_⟩
    · rw [← flatMap_segments_flatten hs t.kept]
      exact flatten_prefix hpre
    · rw [hlog]
      intro tr' htr' k s hk
      rcases List.mem_cons.mp htr' with rfl | htr'
      · rw [hcur.sent] at hk
        exact passed_lengths hk
      · exact settled_lengths hts tr' htr' k s hk
    · intro hunlocked
      rw [hlock] at hunlocked
      exact absurd hunlocked (by decide)

/-- A session with one size in use is always in step. -/
theorem Tracks.inStep {size : Nat} {t : Trace} (hs : 1 ≤ size) (h : Tracks (fun n => n = size) t)
    (e : Event) : InStep t.uart e := by
  cases e with
  | sendBuffer m answers => trivial
  | gattEvt mtu => trivial
  | txComplete answers =>
    intro hlocked s hmem
    rcases h with ⟨_, hlock, _⟩ | ⟨_, cut, hcut, hbase, _, hlt, tr, ts, hlog, _, hcur⟩
    · rw [hlock] at hlocked
      exact absurd hlocked (by decide)
    · have hsize : t.uart.segSize = size := hbase.size
      have hcut : cut = size := hcut
      rw [hcut] at hlt hcur
      rw [lt_count_iff hs, hcur.length_eq] at hlt
      rw [sentOfCurrent, hlog, List.head?_cons, Option.map_some, Option.getD_some, hcur.sent] at hmem
      rw [hsize]
      exact length_of_mem_passed hlt hmem

theorem Tracks.run_fixed {size : Nat} (hs : 1 ≤ size) {t : Trace} {events : List Event}
    (h : Tracks (fun n => n = size) t) (hadm : ∀ e ∈ events, e.Admitted (fun _ => False)) :
    ∃ t', Runs.run Trace.step t events = some t' ∧ Tracks (fun n => n = size) t' ∧
      t'.kept <+ t.kept ++ messages events := by
  have hP : ∀ n, n = size → 1 ≤ n := fun n hn => hn ▸ hs
  have hrun := Runs.simulation (R := fun (t : Trace) ms => Tracks (fun n => n = size) t ∧ t.kept <+ ms)
    (f := fun ms e => ms ++ messages [e]) (c := fun e => e.Admitted (fun _ => False)) (by
      rintro t ms e ⟨ht, hsub⟩ he
      obtain ⟨t', hstep, ht', hsub'⟩ := ht.step hP (fun _ hf => hf.elim) he (ht.inStep hs e)
      exact ⟨t', hstep, ht', hsub'.trans (hsub.append_right _)⟩) ⟨h, List.Sublist.refl t.kept⟩ hadm
  rwa [foldl_messages] at hrun

/-- Every interleaving of calls and completions ends, and what left is the stream of the
messages less those the queue dropped. -/
theorem stream_integrity (size : Nat) (hs : 1 ≤ size) (storage : Nat → UInt8) (events : List Event)
    (hadm : ∀ e ∈ events, e.Admitted (fun _ => False)) :
    ∃ t, Runs.run Trace.step ⟨session size storage, []⟩ events = some t ∧ Streams size t ∧
      t.kept <+ messages events := by
  have hstart : Tracks (fun n => n = size) ⟨session size storage, []⟩ :=
    session_tracks (P := fun n => n = size) rfl storage
  obtain ⟨t, hrun, ht, hsub⟩ := hstart.run_fixed hs hadm
  exact ⟨t, hrun, ht.streams hs, hsub⟩

def accepting (n : Nat) : Answers := fun k => if k < n then nrfSuccess else nrfErrorResources

theorem accepting_regular (n : Nat) : Regular (accepting n) := by
  intro k
  rw [accepting]
  split
  · exact Or.inl rfl
  · exact Or.inr rfl

/-- A message cut off after one segment, and one that waited for it. -/
theorem stream_integrity_two_messages :
    ∃ t, Runs.run Trace.step ⟨session 2 (fun _ => 0), []⟩
        [.sendBuffer [1, 2, 3] (accepting 1), .sendBuffer [4, 5] (accepting 0),
          .txComplete (accepting 2)] = some t ∧
      Streams 2 t ∧ t.kept <+ [[1, 2, 3], [4, 5]] := by
  apply stream_integrity 2 (by decide)
  intro e he
  simp only [List.mem_cons, List.not_mem_nil, or_false] at he
  rcases he with rfl | rfl | rfl
  · exact ⟨⟨by decide, by decide⟩, accepting_regular 1⟩
  · exact ⟨⟨by decide, by decide⟩, accepting_regular 0⟩
  · exact accepting_regular 2

end SidFirmware.BleUart
