import SidFirmware.Application.ConfigReadBack

/-! The device name on its way into flash and back. The length is tested as the eight-bit sum
`p_u8Size + 1u`, which is 0 for 255 bytes, while `memcpy` takes the size as it is. -/
namespace SidFirmware.NameReadBack
open Memory SidStorage EsCommands DeviceName ConfigReadBack Runs

/-- The bytes of the local `l_achName` that `eStorage_DeviceNameWrite` stores to: those of the name,
and one terminator. -/
def achNameStores (d : Device) (size : UInt8) : List Nat :=
  if d.storage.isMemInitialized then
    let nameLght := size + 1
    if nameLght.toNat < nameSize then List.range size.toNat ++ [nameLght.toNat] else []
  else []

/-- The write is refused for its size and changes nothing, or stays in its array; and a name
without NUL that it stores comes back from every later read. -/
structure NameStored (d : Device) (name : Nat → UInt8) (size : UInt8) (answer : MemoryErrCode) : Prop where
  contained : deviceNameWrite d name size answer = some (d, .param) ∨
    ∀ k ∈ achNameStores d size, k < nameSize
  readBack : ∀ d', deviceNameWrite d name size answer = some (d', .none) →
    (0 : UInt8) ∉ cells name 0 size.toNat →
    ∀ (uses : List StorageUse) (d'' : Device), (∀ u ∈ uses, ¬ u.WritesName) →
      run useStorage d' uses = some d'' →
      size.toNat < nameSize ∧
        (deviceNameRead d'').map Prod.snd = some (cells name 0 size.toNat, .none)

/-- The length test lets 255 bytes through, and otherwise up to 18. -/
theorem nameLght_lt_iff (size : UInt8) : (size + 1).toNat < nameSize ↔ size.toNat ≤ 18 ∨ size = 255 := by
  have hone : (1 : UInt8).toNat = 1 := rfl
  have hfull : (255 : UInt8).toNat = 255 := rfl
  have hmax : nameSize = 20 := rfl
  have hsize := size.toNat_lt
  rw [UInt8.toNat_add, hone, ← UInt8.toNat_inj, hfull, hmax]
  omega

theorem achNameStores_of_fits {d : Device} {size : UInt8} (hinit : d.storage.isMemInitialized = true)
    (h : (size + 1).toNat < nameSize) :
    achNameStores d size = List.range size.toNat ++ [(size + 1).toNat] := by
  simp only [achNameStores, hinit, if_true, if_pos h]

theorem achNameStores_of_not {d : Device} {size : UInt8}
    (h : ¬ (d.storage.isMemInitialized = true ∧ (size + 1).toNat < nameSize)) : achNameStores d size = [] := by
  simp only [achNameStores]
  split_ifs with hinit hfits
  · exact absurd ⟨hinit, hfits⟩ h
  · rfl
  · rfl

/-- Only the store of 255 bytes leaves the array. -/
theorem achNameStores_contained_iff (d : Device) (size : UInt8) :
    (∀ k ∈ achNameStores d size, k < nameSize) ↔ ¬ (d.storage.isMemInitialized = true ∧ size = 255) := by
  have hmax : nameSize = 20 := rfl
  by_cases hfits : d.storage.isMemInitialized = true ∧ (size + 1).toNat < nameSize
  · rw [achNameStores_of_fits hfits.1 hfits.2]
    rcases (nameLght_lt_iff size).mp hfits.2 with hle | rfl
    · refine iff_of_true ?_ ?_
      · intro k hk
        rcases List.mem_append.mp hk with hname | hnul
        · have hlt := List.mem_range.mp hname
          omega
        · rw [List.mem_singleton.mp hnul]
          exact hfits.2
      · rintro ⟨-, rfl⟩
        exact absurd hle (by decide)
    · refine iff_of_false ?_ (not_not.mpr ⟨hfits.1, rfl⟩)
      intro hall
      exact absurd (hall 254 (by decide)) (by decide)
  · rw [achNameStores_of_not hfits]
    refine iff_of_true (fun k hk => absurd hk List.not_mem_nil) ?_
    rintro ⟨hinit, rfl⟩
    exact hfits ⟨hinit, by decide⟩

/-- The call leaves its array exactly if it stores to a byte that is not in it. -/
theorem deviceNameWrite_eq_none_iff (d : Device) (name : Nat → UInt8) (size : UInt8) (answer : MemoryErrCode) :
    deviceNameWrite d name size answer = none ↔ ¬ ∀ k ∈ achNameStores d size, k < nameSize := by
  rw [achNameStores_contained_iff, not_not]
  constructor
  · intro h
    simp only [deviceNameWrite] at h
    split_ifs at h with hinit hfits hlong
    have hlarge : ¬ size.toNat ≤ 18 := by
      have hmax : nameSize = 20 := rfl
      omega
    exact ⟨hinit, ((nameLght_lt_iff size).mp hfits).resolve_left hlarge⟩
  · rintro ⟨hinit, rfl⟩
    have hfits : ((255 : UInt8) + 1).toNat < nameSize := by decide
    have hlong : nameSize < (255 : UInt8).toNat := by decide
    simp only [deviceNameWrite, hinit, if_true, if_pos hfits, if_pos hlong]

/-- A name that is stored has 18 bytes at most. -/
theorem size_of_stored {d d' : Device} {name : Nat → UInt8} {size : UInt8} {answer : MemoryErrCode}
    (h : deviceNameWrite d name size answer = some (d', .none)) :
    d.storage.isMemInitialized = true ∧ size.toNat ≤ 18 := by
  simp only [deviceNameWrite] at h
  split_ifs at h with hinit hfits hlong
  · have hshort : size ≠ 255 := by
      rintro rfl
      exact hlong (by decide)
    exact ⟨hinit, ((nameLght_lt_iff size).mp hfits).resolve_right hshort⟩
  · cases h
  · cases h
  · cases h

/-- A name without NUL comes back after any other use of the storage. -/
theorem name_read_back {d d' d'' : Device} {name : Nat → UInt8} {size : UInt8} {answer : MemoryErrCode}
    (h : deviceNameWrite d name size answer = some (d', .none)) (hnul : (0 : UInt8) ∉ cells name 0 size.toNat)
    {uses : List StorageUse} (huses : ∀ u ∈ uses, ¬ u.WritesName) (hrun : run useStorage d' uses = some d'') :
    (deviceNameRead d'').map Prod.snd = some (cells name 0 size.toNat, .none) := by
  obtain ⟨hinit, hsize⟩ := size_of_stored h
  obtain ⟨w, e, hwrite, -, -, hrecord⟩ := deviceNameWrite_spec d name answer hsize
  rw [h] at hwrite
  obtain ⟨rfl, rfl⟩ := Prod.mk.inj (Option.some.inj hwrite)
  rw [if_pos rfl] at hrecord
  have hkept : d''.nameRecord = some (padded nameSize (cells name 0 size.toNat)) ∧
      d''.storage.isMemInitialized = true := by
    refine run_invariant (I := fun d => d.nameRecord = some (padded nameSize (cells name 0 size.toNat)) ∧
      d.storage.isMemInitialized = true) ?_ ⟨hrecord, (deviceNameWrite_keeps h).2.trans hinit⟩ huses hrun
    rintro s u s' ⟨hname, hstorage⟩ hu hstep
    obtain ⟨-, hkeepsName, hkeepsInit⟩ := useStorage_keeps hstep
    exact ⟨(hkeepsName hu).trans hname, hkeepsInit.trans hstorage⟩
  obtain ⟨data, hread⟩ :=
    deviceNameRead_recorded hkept.2 ((cells_length name 0 _).le.trans hsize) hnul hkept.1
  rw [hread]
  rfl

/-- All is well with a device name unless it has 255 bytes and the storage is up. -/
theorem device_name_stored_iff (d : Device) (name : Nat → UInt8) (size : UInt8) (answer : MemoryErrCode) :
    NameStored d name size answer ↔ ¬ (d.storage.isMemInitialized = true ∧ size = 255) := by
  constructor
  · intro h
    rcases h.contained with hparam | hcontained
    · intro hfull
      have hnone := (deviceNameWrite_eq_none_iff d name size answer).mpr
        fun hall => (achNameStores_contained_iff d size).mp hall hfull
      rw [hparam] at hnone
      cases hnone
    · exact (achNameStores_contained_iff d size).mp hcontained
  · intro h
    refine ⟨Or.inr ((achNameStores_contained_iff d size).mpr h), ?_⟩
    intro d' hwrite hnul uses d'' huses hrun
    have hlt : size.toNat < nameSize := Nat.lt_of_le_of_lt (size_of_stored hwrite).2 (by decide)
    exact ⟨hlt, name_read_back hwrite hnul huses hrun⟩

/-- The name of 255 letters, whose length counts as 0 with its terminator. -/
theorem full_name_overruns : ¬ NameStored started (fun _ => 0x41) 255 .none :=
  fun h => h.contained.elim (fun hparam => by cases hparam)
    fun hall => absurd (hall 20 (by decide)) (by decide)

end SidFirmware.NameReadBack
