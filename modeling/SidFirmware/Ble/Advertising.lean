import SidFirmware.Foundation.LengthTypeData
import SidFirmware.Ble.DeviceName

/-! What is advertised: `vBLE_AdvDataUpdate` over the name that `vBLE_UpdateName` stored. The
name is measured by `strlen`, which knows nothing of the size of `g_achBleDeviceName`. -/
namespace SidFirmware.Advertising
open Memory LengthTypeData EsCommands DeviceName

def advDataSizeMax : Nat := 31

/-- `strlen` of the string at the begin of `m`; `none` when the search leaves the RAM. -/
def strlen (m : Nat → UInt8) : Option Nat := (List.range (2 ^ 16)).find? fun k => m k = 0

/-- `vBLE_UpdateName` on the memory from `g_achBleDeviceName` on. -/
def updateName (m : Nat → UInt8) (name : Nat → UInt8) (size : UInt8) : Nat → UInt8 :=
  let nameSize := if size.toNat > deviceNameSizeMax then deviceNameSizeMax else size.toNat
  copyIn (copyIn m 0 (List.replicate deviceNameSizeMax 0)) 0 (cells name 0 nameSize)

/-- `vBLE_AdvDataUpdate` over the memory `m` from `g_achBleDeviceName` on: the memory from
`g_au8AdvData` on, and `g_u8SizeAdvData`. -/
def advDataUpdate (m advData data : Nat → UInt8) (size : UInt8) : Option ((Nat → UInt8) × UInt8) :=
  (strlen m).map fun strlen =>
    let size := sentSize size
    let nameSize := if strlen + 1 > deviceNameSizeMax then deviceNameSizeMax else strlen + 1
    let advData := copyIn advData 0 (List.replicate advDataSizeMax 0)
    let advData := copyIn advData 0 [size + 4, 0xFF, 0x59, 0x00, boardType]
    let advData := copyIn advData 5 (cells data 0 size.toNat)
    let advData := copyIn advData (5 + size.toNat) [UInt8.ofNat nameSize + 1, 0x09]
    (copyIn advData (7 + size.toNat) (cells m 0 nameSize), 7 + size + UInt8.ofNat nameSize)

/-- `BLE_GAP_AD_TYPE_MANUFACTURER_SPECIFIC_DATA`: the company, the board, and the payload. -/
def manufacturer (payload : List UInt8) : Element := ⟨0xFF, [0x59, 0x00, boardType] ++ payload⟩

/-- `BLE_GAP_AD_TYPE_COMPLETE_LOCAL_NAME`. -/
def localName (name : List UInt8) : Element := ⟨0x09, name⟩

/-- The advertised data is two elements, the payload cut to five bytes and the stored name with at
most one NUL; it fits its array, and so does all that is read of the name. -/
def WellFormed (m advData data : Nat → UInt8) (size : UInt8) : Prop :=
  (∃ len < deviceNameSizeMax, strlen m = some len) ∧
    ∃ advData' sizeAdvData, advDataUpdate m advData data size = some (advData', sizeAdvData) ∧
      sizeAdvData.toNat ≤ advDataSizeMax ∧ (∀ k, advDataSizeMax ≤ k → advData' k = advData k) ∧
      ∃ nul ∈ [[], [0]], parse (cells advData' 0 sizeAdvData.toNat) =
        some [manufacturer (cells data 0 (min size.toNat 5)),
          localName (cString (cells m 0 deviceNameSizeMax) ++ nul)]

def Terminated (name : Nat → UInt8) (size : UInt8) : Prop :=
  size.toNat < deviceNameSizeMax ∨ ∃ k < deviceNameSizeMax, name k = 0

/-- `strlen` stops at the first NUL, having read all up to it. -/
theorem strlen_eq_some_iff {m : Nat → UInt8} {len : Nat} :
    strlen m = some len ↔ m len = 0 ∧ len < 2 ^ 16 ∧ ∀ k < len, m k ≠ 0 := by
  simp only [strlen, List.find?_range_eq_some, decide_eq_true_eq, List.mem_range, Bool.not_eq_true',
    decide_eq_false_iff_not, ne_eq]

theorem exists_strlen_lt_iff {m : Nat → UInt8} {n : Nat} (hn : n ≤ 2 ^ 16) :
    (∃ len < n, strlen m = some len) ↔ ∃ k < n, m k = 0 := by
  constructor
  · rintro ⟨len, hlt, hlen⟩
    exact ⟨len, hlt, (strlen_eq_some_iff.mp hlen).1⟩
  · rintro ⟨k, hk, hzero⟩
    have hex : ∃ k, m k = 0 := ⟨k, hzero⟩
    have hle := Nat.find_min' hex hzero
    refine ⟨Nat.find hex, by omega, strlen_eq_some_iff.mpr ⟨Nat.find_spec hex, by omega, ?_⟩⟩
    exact fun j hj => Nat.find_min hex hj

/-- The string is what lies in front of the NUL that `strlen` finds. -/
theorem cString_cells {m : Nat → UInt8} {len n : Nat} (h : strlen m = some len) (hn : len < n) :
    cString (cells m 0 n) = cells m 0 len := by
  obtain ⟨hnul, _, hbefore⟩ := strlen_eq_some_iff.mp h
  obtain ⟨k, rfl⟩ : ∃ k, n = len + 1 + k := Nat.exists_eq_add_of_lt hn |>.imp fun k hk => by omega
  rw [cells_add, cells_succ, List.append_assoc, List.singleton_append, Nat.zero_add, hnul]
  refine cString_append ?_ _
  intro hmem
  obtain ⟨j, hj, heq⟩ := List.mem_map.mp hmem
  rw [Nat.zero_add] at heq
  exact hbefore j (List.mem_range.mp hj) heq

theorem sentSize_toNat (size : UInt8) : (sentSize size).toNat = min size.toNat 5 := by
  have hfive : advSensDataSize.toNat = 5 := rfl
  rw [sentSize]
  split
  · rename_i h
    have hlt := UInt8.lt_iff_toNat_lt.mp h
    omega
  · rename_i h
    have hle := UInt8.le_iff_toNat_le.mp (UInt8.not_lt.mp h)
    omega

/-- What is stored of a name. -/
theorem updateName_apply (m name : Nat → UInt8) (size : UInt8) {k : Nat} (hk : k < deviceNameSizeMax) :
    updateName m name size k = if k < size.toNat then name k else 0 := by
  have hlen : (cells name 0 (min deviceNameSizeMax size.toNat)).length = min deviceNameSizeMax size.toNat :=
    cells_length _ _ _
  have hmin : (if size.toNat > deviceNameSizeMax then deviceNameSizeMax else size.toNat) =
      min deviceNameSizeMax size.toNat := by
    split <;> omega
  rw [updateName, hmin]
  by_cases h : k < size.toNat
  · rw [copyIn_inside _ _ _ _ (Nat.zero_le _) (by omega), cells_getElem, if_pos h]
    simp
  · rw [copyIn_behind _ _ _ (by omega), copyIn_inside _ _ _ _ (Nat.zero_le _) (by simpa using hk), if_neg h]
    simp

/-- The stored name has a NUL exactly if it is shorter than its array or brings one along. -/
theorem exists_nul_iff (m name : Nat → UInt8) (size : UInt8) :
    (∃ k < deviceNameSizeMax, updateName m name size k = 0) ↔ Terminated name size := by
  constructor
  · rintro ⟨k, hk, hzero⟩
    rw [updateName_apply m name size hk] at hzero
    split at hzero
    · exact Or.inr ⟨k, hk, hzero⟩
    · rename_i h
      exact Or.inl (by omega)
  · rintro (hlt | ⟨k, hk, hzero⟩)
    · refine ⟨size.toNat, hlt, ?_⟩
      rw [updateName_apply m name size hlt, if_neg (lt_irrefl _)]
    · refine ⟨k, hk, ?_⟩
      rw [updateName_apply m name size hk]
      split
      · exact hzero
      · rfl

/-- The manufacturer data and the name, cut to its array, lie one behind the other; nothing is
written beyond the array of the advertised data. -/
theorem advDataUpdate_layout {m : Nat → UInt8} {len nameSize : Nat} (h : strlen m = some len)
    (hname : nameSize = min (len + 1) deviceNameSizeMax) (advData data : Nat → UInt8) (size : UInt8) :
    ∃ advData', advDataUpdate m advData data size = some (advData', 7 + sentSize size + UInt8.ofNat nameSize) ∧
      (7 + sentSize size + UInt8.ofNat nameSize).toNat = 7 + (sentSize size).toNat + nameSize ∧
      cells advData' 0 (7 + (sentSize size).toNat + nameSize) =
        [manufacturer (cells data 0 (sentSize size).toNat), localName (cells m 0 nameSize)].flatMap
          Element.encode ∧
      ∀ k, advDataSizeMax ≤ k → advData' k = advData k := by
  have hmax : deviceNameSizeMax = 19 := rfl
  have hsent : (sentSize size).toNat ≤ 5 := (sentSize_toNat size).le.trans (Nat.min_le_right _ _)
  have hmin : (if len + 1 > deviceNameSizeMax then deviceNameSizeMax else len + 1) = nameSize := by
    rw [hname]
    split <;> omega
  have hle : nameSize ≤ 19 := hname.le.trans (Nat.min_le_right _ _)
  rw [advDataUpdate, h, Option.map_some]
  simp only [hmin]
  refine ⟨_, rfl, ?_, ?_, ?_⟩
  · have hseven : (7 : UInt8).toNat = 7 := rfl
    rw [UInt8.toNat_add, UInt8.toNat_add, UInt8.toNat_ofNat', hseven]
    omega
  · set cleared := copyIn advData 0 (List.replicate advDataSizeMax 0)
    set header := copyIn cleared 0 [sentSize size + 4, 0xFF, 0x59, 0x00, boardType]
    set payload := copyIn header 5 (cells data 0 (sentSize size).toNat) with hpayload
    set nameHeader := copyIn payload (5 + (sentSize size).toNat) [UInt8.ofNat nameSize + 1, 0x09]
      with hnameHeader
    -- Each block is appended to those in front of it.
    have hfirst : cells header 0 5 = [sentSize size + 4, 0xFF, 0x59, 0x00, boardType] :=
      cells_copyIn cleared 0 _
    have hsecond := cells_copyIn_append header 5 (cells data 0 (sentSize size).toNat)
    rw [cells_length, ← hpayload, hfirst] at hsecond
    have hthird := cells_copyIn_append payload (5 + (sentSize size).toNat) [UInt8.ofNat nameSize + 1, 0x09]
    rw [← hnameHeader, hsecond] at hthird
    have hlast := cells_copyIn_append nameHeader (7 + (sentSize size).toNat) (cells m 0 nameSize)
    have hoffset : 5 + (sentSize size).toNat + [UInt8.ofNat nameSize + 1, (0x09 : UInt8)].length =
        7 + (sentSize size).toNat := by
      simp only [List.length_cons, List.length_nil]
      omega
    rw [hoffset] at hthird
    rw [cells_length, hthird] at hlast
    have hmanufacturer : UInt8.ofNat ((sentSize size).toNat + 3 + 1) = sentSize size + 4 := by
      rw [Nat.add_assoc, UInt8.ofNat_add, UInt8.ofNat_toNat]
      rfl
    have hlocal : UInt8.ofNat (nameSize + 1) = UInt8.ofNat nameSize + 1 := UInt8.ofNat_add _ 1
    rw [hlast]
    simp [Element.encode, manufacturer, localName, hmanufacturer, hlocal]
  · intro k hk
    have hk31 : 31 ≤ k := hk
    rw [copyIn_behind, copyIn_behind, copyIn_behind, copyIn_behind, copyIn_behind]
    all_goals simp only [List.length_replicate, List.length_cons, List.length_nil, cells_length]
    all_goals omega

/-- Both elements are short enough for their length byte. -/
theorem data_length_lt (payload : Nat → UInt8) (size : UInt8) (m : Nat → UInt8) {nameSize : Nat}
    (h : nameSize ≤ deviceNameSizeMax) :
    ∀ e ∈ [manufacturer (cells payload 0 (sentSize size).toNat), localName (cells m 0 nameSize)],
      e.data.length < 255 := by
  have hsent := sentSize_toNat size
  have hmax : deviceNameSizeMax = 19 := rfl
  intro e he
  rcases List.mem_pair.mp he with rfl | rfl
  · simp only [manufacturer, List.length_append, List.length_cons, List.length_nil, cells_length]
    omega
  · simp only [localName, cells_length]
    omega

/-- The array that the handler's state keeps is what lies in this memory. -/
theorem updateName_bleDeviceName (d : EsCommands.Device) (m name : Nat → UInt8) (size : UInt8) :
    (EsCommands.updateName d name size).bleDeviceName =
      cells (updateName m name size) 0 deviceNameSizeMax := by
  have hsize : (if size.toNat > deviceNameSizeMax then deviceNameSizeMax else size.toNat) ≤
      deviceNameSizeMax := by
    split
    · exact le_refl _
    · omega
  have hlength := (cells_length name 0 _).le.trans hsize
  have hzeroed := cells_zeroed m hlength
  rw [padded, cells_length] at hzeroed
  exact hzeroed.symm

/-- Over zeroed memory, and a name that ends in its array, this is the update of the list model. -/
theorem advDataUpdate_eq {m : Nat → UInt8} {len : Nat} (h : strlen m = some len)
    (hlen : len < deviceNameSizeMax) (data : Nat → UInt8) (size : UInt8) :
    advDataUpdate m (fun _ => 0) data size =
      some (DeviceName.advDataUpdate (cells m 0 deviceNameSizeMax) data size) := by
  have hcleared : copyIn (fun _ => (0 : UInt8)) 0 (List.replicate advDataSizeMax 0) = fun _ => 0 := by
    funext k
    by_cases hk : k < advDataSizeMax
    · simp [copyIn, hk]
    · exact copyIn_behind _ _ _ (by simpa using hk)
  have hname : ¬ len + 1 > deviceNameSizeMax := not_lt.mpr hlen
  rw [advDataUpdate, h, Option.map_some, DeviceName.advDataUpdate, cString_cells h hlen]
  simp only [cells_length, if_neg hname, hcleared, cells_take m 0 (Nat.succ_le_of_lt hlen)]

/-- The advertised data of a name and a payload of any size is well formed exactly if the stored
name ends within its array. -/
theorem advertised_wellFormed_iff (m advData name data : Nat → UInt8) (nameSize size : UInt8) :
    WellFormed (updateName m name nameSize) advData data size ↔ Terminated name nameSize := by
  rw [← exists_nul_iff m name nameSize, ← exists_strlen_lt_iff (by decide)]
  refine ⟨And.left, fun h => ⟨h, ?_⟩⟩
  obtain ⟨len, hlen, hstrlen⟩ := h
  have hmax : deviceNameSizeMax = 19 := rfl
  have hsent := sentSize_toNat size
  obtain ⟨advData', hupdate, hsize, hlayout, houtside⟩ := advDataUpdate_layout hstrlen
    (min_eq_left (Nat.succ_le_of_lt hlen)).symm advData data size
  refine ⟨advData', _, hupdate, ?_, houtside, [0], by simp, ?_⟩
  · rw [hsize, advDataSizeMax]
    omega
  · have hnul := (strlen_eq_some_iff.mp hstrlen).1
    have hstored : cells (updateName m name nameSize) 0 (len + 1) =
        cString (cells (updateName m name nameSize) 0 deviceNameSizeMax) ++ [0] := by
      rw [cString_cells hstrlen hlen, cells_succ, Nat.zero_add, hnul]
    rw [hsize, hlayout, ← hstored, ← hsent]
    exact parse_encode (data_length_lt data size _ (Nat.succ_le_of_lt hlen))

/-- A name of 19 letters fills `g_achBleDeviceName`, and `strlen` reads on behind it. -/
theorem full_name_overread :
    ¬ WellFormed (updateName (fun _ => 0) (fun _ => 0x41) 19) (fun _ => 0) (fun _ => 0) 5 := by
  rintro ⟨hlen, -⟩
  obtain ⟨k, hk, hzero⟩ := (exists_strlen_lt_iff (by decide)).mp hlen
  obtain hshort | ⟨j, -, hnul⟩ := (exists_nul_iff _ _ _).mp ⟨k, hk, hzero⟩
  · exact absurd hshort (by decide)
  · cases hnul

end SidFirmware.Advertising
