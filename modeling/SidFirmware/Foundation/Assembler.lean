import Mathlib.Data.List.Basic
import Mathlib.Data.List.Infix
import Mathlib.Data.List.TakeDrop
import Mathlib.Tactic

/-! A stream assembler. It collects chunks up to a capacity, offers what it holds
to a recogniser after each chunk, and starts over once something is recognised. -/
namespace SidFirmware.Assembler
variable {α : Type}

structure Rules (α : Type) where
  cap : Nat
  accept : List α → Option (List α)

structure State (α : Type) where
  collected : List α
  accepted : List (List α)

/-- Elements beyond the capacity are discarded. -/
def fill (cap : Nat) (collected chunk : List α) : List α := (collected ++ chunk).take cap

def feed (r : Rules α) (s : State α) (chunk : List α) : State α :=
  match r.accept (fill r.cap s.collected chunk) with
  | some f => ⟨[], s.accepted ++ [f]⟩
  | none => ⟨fill r.cap s.collected chunk, s.accepted⟩

def run (r : Rules α) (s : State α) (chunks : List (List α)) : State α := chunks.foldl (feed r) s

/-- `f` fits, is recognised as itself, and is not recognised early. -/
structure Recognises (r : Rules α) (f : List α) : Prop where
  nonempty : f ≠ []
  fits : f.length ≤ r.cap
  whole : r.accept f = some f
  early : ∀ bs more, f = bs ++ more → bs ≠ [] → more ≠ [] → r.accept bs = none

structure Cuts (f : List α) (g : List (List α)) : Prop where
  flatten_eq : g.flatten = f
  nonempty : ∀ c ∈ g, c ≠ []

theorem fill_eq {cap : Nat} {bs chunk : List α} (h : (bs ++ chunk).length ≤ cap) :
    fill cap bs chunk = bs ++ chunk := List.take_of_length_le h

/-- What is collected stays, and takes in as much as there is room for. -/
theorem fill_eq_append {cap : Nat} {bs : List α} (h : bs.length ≤ cap) (chunk : List α) :
    fill cap bs chunk = bs ++ chunk.take (cap - bs.length) := by
  rw [fill, List.take_append, List.take_of_length_le h]

theorem fill_nil {cap : Nat} {bs : List α} (h : bs.length ≤ cap) : fill cap bs [] = bs := by
  rw [fill_eq_append h, List.take_nil, List.append_nil]

theorem fill_eq_nil_iff {cap : Nat} (hcap : cap ≠ 0) {bs chunk : List α} :
    fill cap bs chunk = [] ↔ bs = [] ∧ chunk = [] := by
  rw [fill, List.take_eq_nil_iff, List.append_eq_nil_iff]
  exact or_iff_right hcap

theorem fill_length_le (cap : Nat) (bs chunk : List α) :
    (fill cap bs chunk).length ≤ bs.length + chunk.length := by
  rw [fill, List.length_take, List.length_append]
  exact Nat.min_le_right _ _

/-- Filling chunk by chunk keeps what filling at once keeps. -/
theorem fill_fill (cap : Nat) (as bs cs : List α) :
    fill cap (fill cap as bs) cs = fill cap as (bs ++ cs) := by
  have hmin : cap - min cap (as ++ bs).length = cap - (as ++ bs).length := by omega
  unfold fill
  rw [← List.append_assoc, List.take_append, List.take_take, Nat.min_self, List.length_take, hmin]
  exact List.take_append.symm

theorem run_append (r : Rules α) (s : State α) (as bs : List (List α)) :
    run r s (as ++ bs) = run r (run r s as) bs := List.foldl_append

def Alike (r : Rules α) (as bs : List α) : Prop :=
  ∀ c, c ≠ [] → r.accept (fill r.cap as c) = r.accept (fill r.cap bs c)

/-- What is collected stays alike, whatever is fed to both. -/
theorem Alike.fill {r : Rules α} {as bs : List α} (h : Alike r as bs) (c : List α) :
    Alike r (fill r.cap as c) (fill r.cap bs c) := by
  intro d hd
  rw [fill_fill, fill_fill]
  exact h (c ++ d) (List.append_ne_nil_of_right_ne_nil c hd)

section Assembly
variable {r : Rules α} {f : List α}

/-- A chunk that does not complete the frame is collected. -/
theorem feed_early (h : Recognises r f) {bs chunk more : List α} (hf : f = bs ++ chunk ++ more)
    (hc : chunk ≠ []) (hm : more ≠ []) (fs : List (List α)) :
    feed r ⟨bs, fs⟩ chunk = ⟨bs ++ chunk, fs⟩ := by
  have hfit := h.fits
  have hfill : fill r.cap bs chunk = bs ++ chunk := by
    apply fill_eq
    rw [hf, List.length_append] at hfit
    omega
  have hnone := h.early (bs ++ chunk) more hf (List.append_ne_nil_of_right_ne_nil bs hc) hm
  simp only [feed, hfill, hnone]

/-- The chunk that completes the frame is recognised. -/
theorem feed_last (h : Recognises r f) {bs chunk : List α} (hf : f = bs ++ chunk) (fs : List (List α)) :
    feed r ⟨bs, fs⟩ chunk = ⟨[], fs ++ [f]⟩ := by
  have hfill : fill r.cap bs chunk = f := by
    rw [hf]
    exact fill_eq (hf ▸ h.fits)
  simp only [feed, hfill, h.whole]

/-- Within a frame the collected elements are the chunks fed so far. -/
theorem run_early (h : Recognises r f) {done rest : List (List α)} (hcut : Cuts f (done ++ rest))
    (hr : rest ≠ []) (fs : List (List α)) : run r ⟨[], fs⟩ done = ⟨done.flatten, fs⟩ := by
  induction done using List.reverseRecOn generalizing rest with
  | nil => rfl
  | append_singleton done c ih =>
    have hcut' : Cuts f (done ++ (c :: rest)) := by simpa using hcut
    have hmore : rest.flatten ≠ [] := by
      obtain ⟨d, rest, rfl⟩ := List.exists_cons_of_ne_nil hr
      rw [List.flatten_cons]
      exact List.append_ne_nil_of_left_ne_nil (hcut.nonempty d (by simp)) _
    rw [run_append, ih hcut' (List.cons_ne_nil c rest)]
    have hf : f = done.flatten ++ c ++ rest.flatten := by
      rw [← hcut.flatten_eq]
      simp
    have hstep := feed_early h hf (hcut.nonempty c (by simp)) hmore fs
    simpa [run] using hstep

theorem run_frame (h : Recognises r f) {g : List (List α)} (hcut : Cuts f g) (fs : List (List α)) :
    run r ⟨[], fs⟩ g = ⟨[], fs ++ [f]⟩ := by
  have hg : g ≠ [] := by
    rintro rfl
    exact h.nonempty hcut.flatten_eq.symm
  obtain ⟨done, c, rfl⟩ := (List.eq_nil_or_concat' g).resolve_left hg
  rw [run_append, run_early h hcut (List.cons_ne_nil c [])]
  have hf : f = done.flatten ++ c := by
    rw [← hcut.flatten_eq]
    simp
  exact feed_last h hf fs

/-- Frames cut one by one are all recognised, in order. -/
theorem run_frames {frames : List (List α)} {groups : List (List (List α))}
    (h : List.Forall₂ (fun f g => Recognises r f ∧ Cuts f g) frames groups) (fs : List (List α)) :
    run r ⟨[], fs⟩ groups.flatten = ⟨[], fs ++ frames⟩ := by
  induction h generalizing fs with
  | nil => simp [run]
  | cons hd _ ih =>
    rw [List.flatten_cons, run_append, run_frame hd.1 hd.2, ih]
    simp

end Assembly

section Conservation
variable {r : Rules α}

def Sound (r : Rules α) : Prop := ∀ bs f, r.accept bs = some f → f <:+: bs

def amount (chunks : List (List α)) : Nat := chunks.flatten.length

@[simp] theorem amount_nil : amount ([] : List (List α)) = 0 := rfl
@[simp] theorem amount_cons (c : List α) (cs : List (List α)) :
    amount (c :: cs) = c.length + amount cs := by
  simp [amount]
@[simp] theorem amount_append (as bs : List (List α)) : amount (as ++ bs) = amount as + amount bs := by
  simp [amount]

/-- Nothing is recognised twice: what is held and what was recognised never exceed
what was fed. -/
theorem feed_conserves (h : Sound r) (s : State α) (chunk : List α) :
    amount (feed r s chunk).accepted + (feed r s chunk).collected.length ≤
      amount s.accepted + s.collected.length + chunk.length := by
  have hfill := fill_length_le r.cap s.collected chunk
  unfold feed
  split
  · rename_i f hf
    have hlen := (h _ f hf).length_le
    simp only [amount_append, amount_cons, amount_nil, List.length_nil]
    omega
  · simp only
    omega

theorem run_conserves (h : Sound r) (s : State α) (chunks : List (List α)) :
    amount (run r s chunks).accepted + (run r s chunks).collected.length ≤
      amount s.accepted + s.collected.length + amount chunks := by
  induction chunks generalizing s with
  | nil => simp [run]
  | cons c chunks ih =>
    have hstep := feed_conserves h s c
    have hrest := ih (feed r s c)
    rw [amount_cons]
    change amount (run r (feed r s c) chunks).accepted + (run r (feed r s c) chunks).collected.length ≤ _
    omega

theorem run_accepted_prefix (s : State α) (chunks : List (List α)) :
    s.accepted <+: (run r s chunks).accepted := by
  induction chunks generalizing s with
  | nil => exact List.prefix_refl _
  | cons c chunks ih =>
    refine List.IsPrefix.trans ?_ (ih (feed r s c))
    unfold feed
    split
    · exact List.prefix_append _ _
    · exact List.prefix_refl _

private theorem fill_full {cap : Nat} {pending : List (List α)} {c : List α}
    (h : amount pending + c.length ≤ (fill cap pending.flatten c).length) :
    fill cap pending.flatten c = (pending ++ [c]).flatten := by
  have hfit : (pending.flatten ++ c).length ≤ cap := by
    rw [fill, List.length_take] at h
    rw [List.length_append]
    unfold amount at h
    omega
  simpa using fill_eq hfit

/-- If nothing that was fed is missing from what was recognised, every recognised
frame is exactly the chunks fed since the one before. -/
theorem groups_of_complete (h : Sound r) {chunks pending : List (List α)} {fs es : List (List α)}
    (hne : ∀ c ∈ pending ++ chunks, c ≠ [])
    (hacc : (run r ⟨pending.flatten, es⟩ chunks).accepted = es ++ fs)
    (hlen : amount fs = amount (pending ++ chunks)) :
    ∃ groups : List (List (List α)), groups.flatten = pending ++ chunks ∧ groups.map List.flatten = fs := by
  induction chunks generalizing pending fs es with
  | nil =>
    have hfs : fs = [] := by simpa [run] using hacc.symm
    subst hfs
    cases pending with
    | nil => exact ⟨[], rfl, rfl⟩
    | cons c pending =>
      have hc := List.length_pos_of_ne_nil (hne c (by simp))
      simp only [amount_nil, amount_append, amount_cons] at hlen
      omega
  | cons c chunks ih =>
    have hsplit : pending ++ c :: chunks = (pending ++ [c]) ++ chunks := by simp
    have hfill := fill_length_le r.cap pending.flatten c
    have hpending : pending.flatten.length = amount pending := rfl
    change (run r (feed r ⟨pending.flatten, es⟩ c) chunks).accepted = es ++ fs at hacc
    rw [hsplit] at hne hlen ⊢
    simp only [amount_append, amount_cons, amount_nil] at hlen
    cases hcase : r.accept (fill r.cap pending.flatten c) with
    | none =>
      have hbound := run_conserves h ⟨fill r.cap pending.flatten c, es⟩ chunks
      simp only [feed, hcase] at hacc
      rw [hacc] at hbound
      simp only [amount_append] at hbound
      rw [fill_full (by omega)] at hacc
      refine ih hne hacc ?_
      simp only [amount_append, amount_cons, amount_nil]
      omega
    | some f =>
      simp only [feed, hcase] at hacc
      have hinf := h _ f hcase
      have hle := hinf.length_le
      have hbound := run_conserves h ⟨[], es ++ [f]⟩ chunks
      obtain ⟨fs', rfl⟩ : ∃ fs', fs = f :: fs' := by
        obtain ⟨fs', hfs'⟩ := run_accepted_prefix (r := r) ⟨[], es ++ [f]⟩ chunks
        rw [hacc] at hfs'
        exact ⟨fs', by simpa using hfs'.symm⟩
      rw [hacc] at hbound
      simp only [amount_append, amount_cons, amount_nil, List.length_nil] at hlen hbound
      have hf : f = (pending ++ [c]).flatten := by
        have hfull : fill r.cap pending.flatten c = (pending ++ [c]).flatten := fill_full (by omega)
        rw [← hfull]
        exact hinf.eq_of_length (by omega)
      obtain ⟨groups, hg, hmap⟩ := @ih [] fs' (es ++ [f])
        (fun d hd => hne d (List.mem_append_right _ hd)) (by simpa using hacc)
        (by rw [List.nil_append]; omega)
      refine ⟨(pending ++ [c]) :: groups, ?_, ?_⟩
      · rw [List.flatten_cons, hg]
        simp
      · rw [List.map_cons, hmap, hf]

end Conservation

end SidFirmware.Assembler
