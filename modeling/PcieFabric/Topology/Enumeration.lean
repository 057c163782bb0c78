import PcieFabric.Lib.Search
import PcieFabric.Topology.Discovery

/-!
The enumeration of the host's PCI devices (`windows_enum.cpp`).

* `atoi`, `stoi16`: the conversions of the C++ library that the parsers call.
* `parseLocationInfo`, `parseHardwareIds`: the texts that the host has of a device.
* `classifyPciClass`, `classifyByClassName`: the class of a device.
* `Host`: what the host says of its devices. `enumeratePciDevices`: the devices on the PCI
  bus with their addresses and parents, in the order of their addresses.
* `parseLocationInfo_locationText`: the text of a location is read back.
-/

namespace PcieFabric

namespace Discovery

/-! ### Numbers in texts -/

/-- `std::isspace` in the C locale. -/
def isSpace (c : UInt8) : Bool := c == 32 || (9 ≤ c && c ≤ 13)

/-- `std::isdigit`. -/
def isDigit (c : UInt8) : Bool := 48 ≤ c && c ≤ 57

/-- `std::tolower` in the C locale. -/
def toLower (c : UInt8) : UInt8 := if 65 ≤ c ∧ c ≤ 90 then c + 32 else c

/-- The sign in front of a number, whether it is a minus, and the text behind it. -/
def splitSign : List UInt8 → Bool × List UInt8
  | 45 :: s => (true, s)
  | 43 :: s => (false, s)
  | s => (false, s)

/-- The number that the digits denote. -/
def digitsValue (base : Nat) (value : UInt8 → Nat) (digits : List UInt8) : Nat :=
  digits.foldl (fun n c => base * n + value c) 0

/-- `std::atoi`: spaces, a sign and the digits behind it. A number past the bounds of `int`
is that bound. -/
def atoi (s : List UInt8) : Int :=
  let signed := splitSign (s.dropWhile isSpace)
  let n : Int := digitsValue 10 (fun c => c.toNat - 48) (signed.2.takeWhile isDigit)
  if signed.1 then max (-2 ^ 31) (-n) else min (2 ^ 31 - 1) n

/-- The digits of `std::stoi` in base 16, which may stand behind `0x`. -/
def hexDigitsOf (s : List UInt8) : List UInt8 :=
  let isHex : UInt8 → Bool := fun c => (Bdf.hexval c).isSome
  if s.length ≥ 3 ∧ s.getD 0 0 = 48 ∧ (s.getD 1 0 = 120 ∨ s.getD 1 0 = 88) ∧ isHex (s.getD 2 0)
  then (s.drop 2).takeWhile isHex
  else s.takeWhile isHex

/-- `std::stoi` in base 16, on texts that are too short to leave the range of `int`. It
throws where there is no digit. -/
def stoi16 (s : List UInt8) : Option Int :=
  let signed := splitSign (s.dropWhile isSpace)
  let digits := hexDigitsOf signed.2
  let n : Int := digitsValue 16 (fun c => ((Bdf.hexval c).getD 0).toNat) digits
  if digits.isEmpty then none else some (if signed.1 then -n else n)

/-! ### What the host has of a device -/

/-- `parse_location_info`: bus, device and function. The caller does not use what a failed
call has written. -/
def parseLocationInfo (s : List UInt8) : Option (UInt8 × UInt8 × UInt8) := do
  let lower := s.map toLower
  let bus ← behind (ascii "bus ") lower
  let device ← behind (ascii "device ") lower
  let function ← behind (ascii "function ") lower
  return (UInt8.ofInt (atoi bus), UInt8.ofInt (atoi device), UInt8.ofInt (atoi function))

/-- The fields of `RawPciDevice` that `parse_hardware_ids` writes. -/
structure HardwareIds where
  vendorId : List UInt8 := []
  deviceId : List UInt8 := []
  subsystem : List UInt8 := []
  revision : List UInt8 := []
  classCode : List UInt8 := []
deriving DecidableEq, Repr

/-- `parse_hardware_ids`. -/
def parseHardwareIds (hid : List UInt8) : HardwareIds :=
  let field (key : String) : List UInt8 := (behind (ascii key) hid).getD []
  { vendorId := (field "VEN_").take 4
    deviceId := (field "DEV_").take 4
    subsystem := (field "SUBSYS_").take 8
    revision := field "REV_"
    classCode := (field "CC_").take 6 }

/-- `classify_pci_class`. Nothing stands for the exception of `std::stoi`. -/
def classifyPciClass (classCode : List UInt8) : Option DeviceClass :=
  if classCode.length < 2 then some DeviceClass.unknown
  else do
    let b ← stoi16 (classCode.take 2)
    let sub ← if 4 ≤ classCode.length then stoi16 ((classCode.drop 2).take 2) else some 0
    return if b = 0x06 ∧ (sub = 0x04 ∨ sub = 0x09) then DeviceClass.bridge
      else if b = 0x0C ∧ sub = 0x08 then DeviceClass.accelerator
      else if b = 0x02 then DeviceClass.nic
      else if b = 0x01 then DeviceClass.storage
      else if b = 0x03 then DeviceClass.other
      else if b = 0x06 then DeviceClass.bridge
      else DeviceClass.other

/-- `classify_by_class_name`. -/
def classifyByClassName (className vendor : List UInt8) : DeviceClass :=
  if className = ascii "Net" then DeviceClass.nic
  else if className = ascii "SCSIADAPTER" ∨ className = ascii "DiskDrive" ∨
      className = ascii "HDC" ∨ className = ascii "Volume" then DeviceClass.storage
  else if className = ascii "Accelerator" then DeviceClass.accelerator
  else if className = ascii "Display" ∧ vendor = ascii "10DE" then DeviceClass.accelerator
  else if className = ascii "Display" then DeviceClass.other
  else if className = ascii "PCI" then DeviceClass.bridge
  else if className = ascii "System" then DeviceClass.bridge
  else if className = ascii "MEDIA" then DeviceClass.other
  else DeviceClass.unknown

/-- What the host says of a device: its instance handle, and its registry properties as
`get_registry_string` and `get_dword_prop` return them. -/
structure HostDevice where
  inst : UInt32
  enumerator : List UInt8 := ascii "PCI"
  location : List UInt8 := []
  busNumber : Option UInt32 := none
  address : Option UInt32 := none
  hardwareId : List UInt8 := []
  driver : List UInt8 := []
  deviceDesc : List UInt8 := []
  className : List UInt8 := []
deriving DecidableEq, Repr

namespace HostDevice

/-- The device is on the PCI bus. -/
def isPci (h : HostDevice) : Bool := h.enumerator == ascii "PCI"

/-- The address of a device: from its location, or from its bus number, or else the zero
address. -/
def bdf (h : HostDevice) : Bdf :=
  match parseLocationInfo h.location with
  | some (bus, device, function) => { bus, device, function }
  | none =>
      match h.busNumber with
      | none => {}
      | some bus =>
          let address := h.address.getD 0
          { bus := (bus &&& 0xff).toUInt8
            device := ((address >>> 8) &&& 0x1f).toUInt8
            function := (address &&& 0x7).toUInt8 }

/-- The class of a device: from the class code in its hardware id, or else from the name of
its class. -/
def kind (h : HostDevice) : Option DeviceClass :=
  let ids := parseHardwareIds h.hardwareId
  if 2 ≤ ids.classCode.length then classifyPciClass ids.classCode
  else some (classifyByClassName h.className ids.vendorId)

end HostDevice

/-- `RawPciDevice`, with the fields that only the enumeration itself uses and those that it
hands on. -/
structure FoundDevice extends RawPciDevice, HardwareIds where
  inst : UInt32
  enumerator : List UInt8 := []
  driver : List UInt8 := []
  deviceDesc : List UInt8 := []
  className : List UInt8 := []
deriving DecidableEq, Repr

/-- What the first pass makes of a device. -/
def HostDevice.found (h : HostDevice) : Option FoundDevice := do
  let kind ← h.kind
  return { parseHardwareIds h.hardwareId with
    bdf := h.bdf
    kind
    isBridge := kind == DeviceClass.bridge
    inst := h.inst
    enumerator := h.enumerator
    driver := h.driver
    deviceDesc := h.deviceDesc
    className := h.className }

/-- What the host says: its present devices, unless it cannot list them, and the parent of a
device (`CM_Get_Parent`), if it has one. The devices are listed by an index of 32 bits. -/
structure Host where
  devices : Option (List HostDevice)
  parent : UInt32 → Option UInt32
  indexed : (devices.getD []).length < 2 ^ 32

namespace Host

/-- The devices on the PCI bus. -/
def pciDevices (host : Host) : List HostDevice :=
  (host.devices.getD []).filter HostDevice.isPci

/-- `inst_info`: the address of the last device with the handle. -/
def addressOf (found : List FoundDevice) (inst : UInt32) : Option Bdf :=
  (found.reverse.find? fun d => d.inst == inst).map fun d => d.bdf

/-- The second pass: the address of the parent, if that is one of the devices. -/
def resolve (host : Host) (found : List FoundDevice) (d : FoundDevice) : FoundDevice :=
  match host.parent d.inst with
  | none => d
  | some inst =>
      if inst = 0 then d
      else match addressOf found inst with
        | none => d
        | some b => { d with parentBdf := some b }

/-- `enumerate_pci_devices`, with this implementation of `std::sort`. Nothing stands for an
exception. -/
def enumeratePciDevices (sort : List FoundDevice → List FoundDevice) (host : Host) :
    Option (Result (List FoundDevice)) :=
  match host.devices with
  | none => some (.err .windowsError "SetupDiGetClassDevs failed")
  | some _ => do
      let found ← host.pciDevices.mapM HostDevice.found
      return .ok (sort (found.map (host.resolve found)))

/-- `build_topology_from_windows`. -/
def buildTopologyFromWindows (sort : List FoundDevice → List FoundDevice) (host : Host) :
    Option (Result Topology) := do
  let devices ← host.enumeratePciDevices sort
  return buildTopology (devices.map fun ds => ds.map FoundDevice.toRawPciDevice)

end Host

/-! ### The text of a location -/

/-- A number in decimal digits. -/
def decimal (n : Nat) : List UInt8 := ascii n.repr

/-- The text of the location of a device. -/
def locationText (bus device function : Nat) : List UInt8 :=
  ascii "PCI bus " ++ (decimal bus ++ (ascii ", device " ++ (decimal device ++
    (ascii ", function " ++ decimal function))))

/-- A letter of a number stands for its code. -/
lemma toNat_digit {n : Nat} {d : Char} (h : d ∈ Nat.toDigits 10 n) :
    48 ≤ d.toNat ∧ d.toNat ≤ 57 ∧ (UInt8.ofNat d.toNat).toNat = d.toNat := by
  have hdigit := Nat.isDigit_of_mem_toDigits (by omega) (by omega) h
  rw [Char.isDigit, Bool.and_eq_true, decide_eq_true_iff, decide_eq_true_iff] at hdigit
  have hhi : d.toNat ≤ 57 := hdigit.2
  exact ⟨hdigit.1, hhi, UInt8.toNat_ofNat_of_lt' (hhi.trans_lt (by decide))⟩

/-- The letters of a number are digits. -/
lemma digit_of_mem_decimal {n : Nat} {c : UInt8} (h : c ∈ decimal n) : 48 ≤ c ∧ c ≤ 57 := by
  rw [decimal, ascii, Nat.toList_repr] at h
  obtain ⟨d, hd, rfl⟩ := List.mem_map.mp h
  obtain ⟨hlo, hhi, hcode⟩ := toNat_digit hd
  rw [UInt8.le_iff_toNat_le, UInt8.le_iff_toNat_le, hcode]
  exact ⟨hlo, hhi⟩

lemma isDigit_of_mem_decimal {n : Nat} {c : UInt8} (h : c ∈ decimal n) : isDigit c = true := by
  obtain ⟨hlo, hhi⟩ := digit_of_mem_decimal h
  rw [isDigit, decide_eq_true hlo, decide_eq_true hhi, Bool.and_self]

/-- The digits denote the number. -/
lemma digitsValue_decimal (n : Nat) :
    digitsValue 10 (fun c => c.toNat - 48) (decimal n) = n := by
  have hvalue := @Nat.ofDigitChars_ten_toDigits n
  rw [Nat.ofDigitChars_eq_foldl] at hvalue
  rw [digitsValue, decimal, ascii, Nat.toList_repr, List.foldl_map]
  refine Eq.trans (List.foldl_ext _ _ _ fun m d hd => ?_) hvalue
  rw [(toNat_digit hd).2.2]
  rfl

/-- A text that starts with a digit has no sign. -/
lemma splitSign_of_digit {c : UInt8} (h : 48 ≤ c) (s : List UInt8) :
    splitSign (c :: s) = (false, c :: s) := by
  rw [splitSign]
  · intro s' heq
    obtain ⟨rfl, -⟩ := List.cons.inj heq
    exact absurd h (by decide)
  · intro s' heq
    obtain ⟨rfl, -⟩ := List.cons.inj heq
    exact absurd h (by decide)

/-- A number is read up to the first letter behind it that is no digit. -/
lemma atoi_decimal {n : Nat} (hn : n < 2 ^ 31) {rest : List UInt8}
    (hrest : rest.takeWhile isDigit = []) : atoi (decimal n ++ rest) = n := by
  have hdigits : (decimal n ++ rest).takeWhile isDigit = decimal n := by
    rw [List.takeWhile_append_of_pos fun c hc => isDigit_of_mem_decimal hc, hrest,
      List.append_nil]
  cases hcons : decimal n with
  | nil =>
      rw [decimal, ascii, Nat.toList_repr, List.map_eq_nil_iff] at hcons
      exact absurd hcons Nat.toDigits_ne_nil
  | cons c digits =>
      obtain ⟨hlo, -⟩ := digit_of_mem_decimal (by rw [hcons]; exact List.mem_cons_self)
      have hspace : ¬ isSpace c = true := by
        rw [isSpace, Bool.or_eq_true, Bool.and_eq_true, beq_iff_eq, decide_eq_true_iff,
          decide_eq_true_iff]
        rintro (rfl | ⟨-, hle⟩)
        · exact absurd hlo (by decide)
        · exact absurd (UInt8.le_trans hlo hle) (by decide)
      have hvalue := digitsValue_decimal n
      rw [hcons, List.cons_append] at hdigits
      rw [hcons] at hvalue
      rw [atoi, List.cons_append, List.dropWhile_cons_of_neg hspace, splitSign_of_digit hlo]
      dsimp only
      rw [hdigits, hvalue, if_neg Bool.false_ne_true]
      omega

/-- Lower case does not change numbers. -/
lemma map_toLower_decimal (n : Nat) : (decimal n).map toLower = decimal n := by
  refine List.map_congr_left (fun c hc => ?_) |>.trans (List.map_id _)
  have hle := (digit_of_mem_decimal hc).2
  rw [toLower, if_neg]
  · rfl
  · rintro ⟨hlo, -⟩
    exact absurd (UInt8.le_trans hlo hle) (by decide)

/-- The three words are found in front of their numbers, since none of them starts with a
letter of a number. -/
lemma behind_words {b d f : List UInt8} (hb : ∀ c ∈ b, c ≤ 57) (hd : ∀ c ∈ d, c ≤ 57) :
    let text := ascii "pci bus " ++ (b ++ (ascii ", device " ++ (d ++
      (ascii ", function " ++ f))))
    behind (ascii "bus ") text =
        some (b ++ (ascii ", device " ++ (d ++ (ascii ", function " ++ f)))) ∧
      behind (ascii "device ") text = some (d ++ (ascii ", function " ++ f)) ∧
      behind (ascii "function ") text = some f := by
  have hnot (c : UInt8) (hc : 57 < c) {l : List UInt8} (hl : ∀ c ∈ l, c ≤ 57) : c ∉ l :=
    fun hmem => absurd (hl c hmem) (UInt8.not_le.mpr hc)
  have hdevice : 100 ∉ ascii "pci bus " ++ (b ++ ascii ", ") := by
    simp only [List.mem_append, not_or]
    exact ⟨by decide, hnot 100 (by decide) hb, by decide⟩
  have hfunction : 102 ∉ ascii "pci bus " ++ (b ++ (ascii ", device " ++ (d ++ ascii ", "))) := by
    simp only [List.mem_append, not_or]
    exact ⟨by decide, hnot 102 (by decide) hb, by decide, hnot 102 (by decide) hd, by decide⟩
  refine ⟨@behind_first _ _ 98 (ascii "pci ") (by decide) _ _, ?_, ?_⟩
  · have hfirst := behind_first hdevice (ascii "evice ") (d ++ (ascii ", function " ++ f))
    simp only [List.append_assoc] at hfirst
    exact hfirst
  · have hfirst := behind_first hfunction (ascii "unction ") f
    simp only [List.append_assoc] at hfirst
    exact hfirst

/-- **The text of a location is read back.** -/
theorem parseLocationInfo_locationText (bus device function : UInt8) :
    parseLocationInfo (locationText bus.toNat device.toNat function.toNat) =
      some (bus, device, function) := by
  have hbyte (n : UInt8) {rest : List UInt8} (hrest : rest.takeWhile isDigit = []) :
      UInt8.ofInt (atoi (decimal n.toNat ++ rest)) = n := by
    have hlt := n.toNat_lt
    have hmod : ((n.toNat : Int) % 2 ^ 8).toNat = n.toNat := by omega
    rw [atoi_decimal (by omega) hrest, UInt8.ofInt, hmod, UInt8.ofNat_toNat]
  have hlower : (locationText bus.toNat device.toNat function.toNat).map toLower =
      ascii "pci bus " ++ (decimal bus.toNat ++ (ascii ", device " ++ (decimal device.toNat ++
        (ascii ", function " ++ decimal function.toNat)))) := by
    simp only [locationText, List.map_append, map_toLower_decimal]
    rfl
  obtain ⟨hbus, hdevice, hfunction⟩ := @behind_words (decimal bus.toNat) (decimal device.toNat)
    (decimal function.toNat) (fun c hc => (digit_of_mem_decimal hc).2)
    fun c hc => (digit_of_mem_decimal hc).2
  have hlast := @hbyte function [] rfl
  rw [List.append_nil] at hlast
  rw [parseLocationInfo]
  simp only [hlower, hbus, hdevice, hfunction, Option.bind_eq_bind, Option.bind_some]
  rw [hbyte bus rfl, hbyte device rfl, hlast]
  rfl

/-- A device with the text of an address as its location is at the address. -/
theorem HostDevice.bdf_of_location {h : HostDevice} {b : Bdf} (hdomain : b.domain = 0)
    (hlocation : h.location = locationText b.bus.toNat b.device.toNat b.function.toNat) :
    h.bdf = b := by
  rw [bdf, hlocation, parseLocationInfo_locationText]
  exact Bdf.ext hdomain.symm rfl rfl rfl

end Discovery

end PcieFabric
