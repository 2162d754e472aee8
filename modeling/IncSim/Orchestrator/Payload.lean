import IncSim.Lib.Buffer
import IncSim.Lib.Run
import IncSim.Node.ComputeNode
import Mathlib.Algebra.Group.Nat.Defs
import Mathlib.Algebra.GroupWithZero.Nat
import Mathlib.Order.Lattice

/-!
# The payload of the UDP communication app

`UdpOrchestrationCommunicationApp` sends a buffer of its own, or bytes that do not matter.

* `UdpOrchestrationCommunicationApp`, `Consistent`: the app, and what its assertions ask for.
* `setDataSize`, `setFillText`, `setFillByte`, `setFillBuffer`: `SetDataSize` and the three `SetFill`.
* `fillLoop`: the loop of the third one, with a bound on its iterations.
* `fillLoop_ends`, `fillLoop_overrun`, `fillLoop_idle`: the three things that it can do.
* **`setFill_repeats_iff`**: when the third `SetFill` repeats its pattern.
-/

namespace IncSim

open PartialRun Buffer

/-- `UdpOrchestrationCommunicationApp`. -/
structure UdpOrchestrationCommunicationApp where
  /-- `m_count` -/
  count : UInt32
  interval : ℕ
  exeTime : ℕ
  periodic : Bool
  size : UInt32
  dataSize : UInt32
  /-- the bytes behind `m_data`; none is the null pointer -/
  data : Option Str
  firstTime : Bool
  sent : UInt32
  /-- `m_socket` is not null -/
  socket : Bool
  sendEvent : Option ℕ

namespace UdpOrchestrationCommunicationApp

/-- The app with its attributes, as the constructor leaves it. -/
def installed (count : UInt32) (interval exeTime : ℕ) (periodic : Bool) (packetSize : UInt32) :
    UdpOrchestrationCommunicationApp :=
  { count := count, interval := interval, exeTime := exeTime, periodic := periodic
    size := packetSize, dataSize := 0, data := none, firstTime := false, sent := 0
    socket := false, sendEvent := none }

variable (a : UdpOrchestrationCommunicationApp)

/-- The bytes of the buffer. -/
def bytes : Str := a.data.getD []

/-- The buffer has `m_dataSize` bytes, and if there are any, those are to be sent. -/
structure Consistent : Prop where
  length : a.bytes.length = a.dataSize.toNat
  size : a.dataSize ≠ 0 → a.size = a.dataSize

/-! ## Setting the payload -/

def setDataSize (dataSize : UInt32) : UdpOrchestrationCommunicationApp :=
  { a with data := none, dataSize := 0, size := dataSize }

/-- A buffer of the size, a new one if the old one has another size; `junk` is what is in it. -/
def allocate (junk : ℕ → Char) (dataSize : UInt32) : UdpOrchestrationCommunicationApp :=
  if dataSize ≠ a.dataSize then
    { a with data := some ((List.range dataSize.toNat).map junk), dataSize := dataSize }
  else a

/-- `memcpy (&m_data[i], src, n)`. -/
def memcpy (src : Str) (i n : ℕ) : Except Fault UdpOrchestrationCommunicationApp :=
  match a.data with
  | none => if n = 0 then .ok a else .error .nullPointer
  | some l =>
    match copyAt l src i n with
    | some l => .ok { a with data := some l }
    | none => .error .outOfRange

/-- `SetFill (std::string)`: the text with its null character. -/
def setFillText (junk : ℕ → Char) (fill : Str) : Except Fault UdpOrchestrationCommunicationApp := do
  let dataSize := UInt32.ofNat fill.length + 1
  let a ← (a.allocate junk dataSize).memcpy (fill ++ ['\x00']) 0 dataSize.toNat
  pure { a with size := dataSize }

/-- `SetFill (uint8_t, uint32_t)`: one byte over and over again. -/
def setFillByte (junk : ℕ → Char) (fill : Char) (dataSize : UInt32) :
    Except Fault UdpOrchestrationCommunicationApp := do
  let a ← (a.allocate junk dataSize).memcpy (List.replicate dataSize.toNat fill) 0 dataSize.toNat
  pure { a with size := dataSize }

/-- The loop of the third `SetFill`, with a bound on the number of its iterations; nothing when it
needs more. -/
def fillLoop (fill : Str) (fillSize dataSize : UInt32) :
    ℕ → UdpOrchestrationCommunicationApp → UInt32 →
      Except Fault (Option (UdpOrchestrationCommunicationApp × UInt32))
  | 0, a, filled => .ok (if filled + fillSize < dataSize then none else some (a, filled))
  | bound + 1, a, filled =>
    if filled + fillSize < dataSize then do
      let a ← a.memcpy fill filled.toNat fillSize.toNat
      fillLoop fill fillSize dataSize bound a (filled + fillSize)
    else .ok (some (a, filled))

/-- `SetFill (uint8_t *, uint32_t, uint32_t)`: a pattern over and over again. -/
def setFillBuffer (junk : ℕ → Char) (fill : Str) (fillSize dataSize : UInt32) (bound : ℕ) :
    Except Fault (Option UdpOrchestrationCommunicationApp) := do
  let a := a.allocate junk dataSize
  if dataSize ≤ fillSize then do
    let a ← a.memcpy fill 0 dataSize.toNat
    pure (some { a with size := dataSize })
  else
    match ← fillLoop fill fillSize dataSize bound a 0 with
    | none => pure none
    | some (a, filled) => do
      let a ← a.memcpy fill filled.toNat (dataSize - filled).toNat
      pure (some { a with size := dataSize })

/-! ## What the buffer is afterwards -/

variable {a} {a' : UdpOrchestrationCommunicationApp} {junk : ℕ → Char} {src fill l : Str}
  {fillSize dataSize filled : UInt32} {i k n bound : ℕ}

/-- **`memcpy`** changes the bytes and nothing else. -/
theorem memcpy_ok (h : copyAt a.bytes src i n = some l) :
    ∃ data, a.memcpy src i n = .ok { a with data := data } ∧ data.getD [] = l := by
  unfold memcpy
  cases hd : a.data with
  | none =>
    obtain ⟨hbuf, -, rfl⟩ := copyAt_eq_some h
    have hnil : a.bytes = [] := by rw [bytes, hd]; rfl
    obtain ⟨rfl, rfl⟩ : i = 0 ∧ n = 0 := by
      rw [hnil, List.length_nil] at hbuf
      omega
    refine ⟨none, ?_, by rw [hnil]; rfl⟩
    simp only [if_pos]
    rw [← hd]
  | some b =>
    rw [bytes, hd, Option.getD_some] at h
    exact ⟨some l, by simp only [h], rfl⟩

/-- Out of bounds. -/
theorem memcpy_outOfRange (hne : a.bytes ≠ []) (h : a.bytes.length < i + n) :
    a.memcpy src i n = .error .outOfRange := by
  unfold memcpy
  unfold bytes at hne h
  cases hd : a.data with
  | none => exact absurd (by rw [hd]; rfl) hne
  | some b =>
    rw [hd, Option.getD_some] at h
    have hnone : copyAt b src i n = none := if_neg (by omega)
    simp only [hnone]

/-- A buffer of the size, whatever is in it. -/
theorem allocate_ok (hc : a.Consistent) :
    ∃ data, a.allocate junk dataSize = { a with data := data, dataSize := dataSize } ∧
      (data.getD []).length = dataSize.toNat := by
  unfold allocate
  split_ifs with heq
  · exact ⟨_, rfl, by simp⟩
  · have heq : dataSize = a.dataSize := by simpa using heq
    exact ⟨a.data, by rw [heq], heq ▸ hc.length⟩

/-- The beginning of a source, in a buffer of the size. -/
theorem memcpy_allocate (hc : a.Consistent) (hsrc : dataSize.toNat ≤ src.length) :
    ∃ data, (a.allocate junk dataSize).memcpy src 0 dataSize.toNat =
        .ok { a with data := data, dataSize := dataSize } ∧
      data.getD [] = src.take dataSize.toNat := by
  obtain ⟨data, halloc, hlen⟩ := @allocate_ok a junk dataSize hc
  have hcopy : copyAt (data.getD []) src 0 dataSize.toNat = some (src.take dataSize.toNat) := by
    unfold copyAt
    rw [if_pos ⟨by omega, hsrc⟩, List.take_zero, List.nil_append,
      List.drop_eq_nil_of_le (by omega), List.append_nil]
  obtain ⟨data', hmem, hbytes⟩ := memcpy_ok (a := { a with data := data, dataSize := dataSize }) hcopy
  exact ⟨data', by rw [halloc, hmem], hbytes⟩

/-- **The first `SetFill`**: the text and its null character; only the null character of a text with
`2 ^ 32 - 1` bytes or more is cut off. -/
theorem setFillText_ok (hc : a.Consistent) :
    ∃ data, a.setFillText junk fill = .ok { a with
        data := data, dataSize := UInt32.ofNat fill.length + 1
        size := UInt32.ofNat fill.length + 1 } ∧
      data.getD [] = (fill ++ ['\x00']).take (UInt32.ofNat fill.length + 1).toNat := by
  have hsrc : (UInt32.ofNat fill.length + 1).toNat ≤ (fill ++ ['\x00']).length := by
    rw [UInt32.toNat_add, UInt32.toNat_ofNat', List.length_append, UInt32.toNat_one,
      List.length_singleton]
    omega
  obtain ⟨data, hmem, hbytes⟩ := @memcpy_allocate a junk _ _ hc hsrc
  exact ⟨data, by unfold setFillText; dsimp only; rw [hmem]; rfl, hbytes⟩

/-- **The second `SetFill`.** -/
theorem setFillByte_ok {c : Char} (hc : a.Consistent) :
    ∃ data, a.setFillByte junk c dataSize =
        .ok { a with data := data, dataSize := dataSize, size := dataSize } ∧
      data.getD [] = List.replicate dataSize.toNat c := by
  have hsrc : dataSize.toNat ≤ (List.replicate dataSize.toNat c).length := by
    rw [List.length_replicate]
  obtain ⟨data, hmem, hbytes⟩ := @memcpy_allocate a junk _ _ hc hsrc
  refine ⟨data, by unfold setFillByte; rw [hmem]; rfl, ?_⟩
  rw [hbytes, List.take_of_length_le (by rw [List.length_replicate])]

/-! ## The loop -/

section Loop

variable (hfill : fill.length = fillSize.toNat)
include hfill

/-- **After `k` iterations** there are `k` copies of the pattern. -/
theorem fillLoop_add (hlen : a.bytes.length = dataSize.toNat)
    (hk : k * fillSize.toNat < dataSize.toNat) :
    ∃ data, (data.getD []).length = dataSize.toNat ∧
      Repeats fill (k * fill.length) (data.getD []) ∧
      ∀ bound, fillLoop fill fillSize dataSize (bound + k) a 0 =
        fillLoop fill fillSize dataSize bound { a with data := data }
          (UInt32.ofNat (k * fillSize.toNat)) := by
  induction k with
  | zero => exact ⟨a.data, hlen, by simpa using repeats_zero, fun bound => by simp⟩
  | succ k ih =>
    have hd := dataSize.toNat_lt
    rw [Nat.succ_mul] at hk
    obtain ⟨data, hlen', hr, hloop⟩ := ih (by omega)
    have hfilled : (UInt32.ofNat (k * fillSize.toNat)).toNat = k * fillSize.toNat := by
      simp only [UInt32.toNat_ofNat']
      omega
    have hsum : UInt32.ofNat (k * fillSize.toNat) + fillSize =
        UInt32.ofNat ((k + 1) * fillSize.toNat) := by
      rw [Nat.succ_mul, UInt32.ofNat_add, UInt32.ofNat_toNat]
    have hcond : UInt32.ofNat (k * fillSize.toNat) + fillSize < dataSize := by
      rw [hsum, UInt32.lt_iff_toNat_lt, Nat.succ_mul]
      simp only [UInt32.toNat_ofNat']
      omega
    have hroom : k * fill.length + fill.length ≤ (data.getD []).length := by
      rw [hlen', hfill]
      omega
    obtain ⟨l, hl⟩ := Option.isSome_iff_exists.mp (copyAt_isSome.mpr ⟨hroom, le_rfl⟩)
    obtain ⟨data', hmem, hbytes⟩ := memcpy_ok (a := { a with data := data }) hl
    refine ⟨data', ?_, ?_, fun bound => ?_⟩
    · rw [hbytes, length_copyAt hl, hlen']
    · rw [hbytes, Nat.succ_mul]
      exact hr.copyAt le_rfl hl
    · rw [← Nat.add_assoc, Nat.add_right_comm, hloop, fillLoop, if_pos hcond, hfilled, ← hfill, hmem,
        hfill, hsum]
      rfl

/-- The last copy that the loop makes, if it is right, is number `lastFill`. -/
def lastFill (fillSize dataSize : UInt32) : ℕ := (dataSize.toNat - 1) / fillSize.toNat

omit hfill in
theorem lastFill_bounds (hpos : fillSize ≠ 0) (hlt : fillSize < dataSize) :
    lastFill fillSize dataSize * fillSize.toNat < dataSize.toNat ∧
      dataSize.toNat ≤ (lastFill fillSize dataSize + 1) * fillSize.toNat := by
  have hpos : 0 < fillSize.toNat := Nat.pos_of_ne_zero fun h => hpos (UInt32.toNat_inj.mp h)
  have hlt : fillSize.toNat < dataSize.toNat := UInt32.lt_iff_toNat_lt.mp hlt
  have hdiv := Nat.div_mul_le_self (dataSize.toNat - 1) fillSize.toNat
  have hmod := Nat.lt_div_mul_add (a := dataSize.toNat - 1) hpos
  unfold lastFill
  rw [Nat.succ_mul]
  omega

/-- **The loop ends** where the next multiple of the size of the pattern is a `uint32`. -/
theorem fillLoop_ends (hlen : a.bytes.length = dataSize.toNat) (hpos : fillSize ≠ 0)
    (hlt : fillSize < dataSize)
    (hfits : (lastFill fillSize dataSize + 1) * fillSize.toNat < 2 ^ 32) :
    ∃ data, (data.getD []).length = dataSize.toNat ∧
      Repeats fill (lastFill fillSize dataSize * fill.length) (data.getD []) ∧
      ∀ bound, lastFill fillSize dataSize ≤ bound → fillLoop fill fillSize dataSize bound a 0 =
        .ok (some ({ a with data := data },
          UInt32.ofNat (lastFill fillSize dataSize * fillSize.toNat))) := by
  obtain ⟨hlast, hnext⟩ := lastFill_bounds hpos hlt
  obtain ⟨data, hlen', hr, hloop⟩ := fillLoop_add hfill hlen hlast
  refine ⟨data, hlen', hr, fun bound hbound => ?_⟩
  obtain ⟨more, rfl⟩ := Nat.exists_eq_add_of_le' hbound
  have hcond : ¬ UInt32.ofNat (lastFill fillSize dataSize * fillSize.toNat) + fillSize < dataSize := by
    rw [Nat.succ_mul] at hnext hfits
    rw [UInt32.lt_iff_toNat_lt, UInt32.toNat_add]
    simp only [UInt32.toNat_ofNat']
    omega
  rw [hloop]
  cases more with
  | zero => rw [fillLoop, if_neg hcond]
  | succ more => rw [fillLoop, if_neg hcond]

/-- **The loop writes behind the buffer** where it is not: the sum wraps around and is small. -/
theorem fillLoop_overrun (hlen : a.bytes.length = dataSize.toNat) (hpos : fillSize ≠ 0)
    (hlt : fillSize < dataSize)
    (hover : 2 ^ 32 ≤ (lastFill fillSize dataSize + 1) * fillSize.toNat)
    (hbound : lastFill fillSize dataSize < bound) :
    fillLoop fill fillSize dataSize bound a 0 = .error .outOfRange := by
  obtain ⟨hlast, hnext⟩ := lastFill_bounds hpos hlt
  obtain ⟨data, hlen', -, hloop⟩ := fillLoop_add hfill hlen hlast
  obtain ⟨more, rfl⟩ := Nat.exists_eq_add_of_lt hbound
  have hd := dataSize.toNat_lt
  have hs : fillSize.toNat < dataSize.toNat := UInt32.lt_iff_toNat_lt.mp hlt
  rw [Nat.succ_mul] at hover hnext
  have hfilled : (UInt32.ofNat (lastFill fillSize dataSize * fillSize.toNat)).toNat =
      lastFill fillSize dataSize * fillSize.toNat := by
    simp only [UInt32.toNat_ofNat']
    omega
  have hcond : UInt32.ofNat (lastFill fillSize dataSize * fillSize.toNat) + fillSize < dataSize := by
    rw [UInt32.lt_iff_toNat_lt, UInt32.toNat_add, hfilled]
    omega
  have hover : ({ a with data := data } : UdpOrchestrationCommunicationApp).memcpy fill
      (lastFill fillSize dataSize * fillSize.toNat) fillSize.toNat = .error .outOfRange := by
    refine memcpy_outOfRange (fun hnil => ?_) ?_
    · have hzero : (data.getD []).length = 0 := congrArg List.length hnil
      omega
    · have hlen' : ({ a with data := data } : UdpOrchestrationCommunicationApp).bytes.length =
          dataSize.toNat := hlen'
      omega
  rw [Nat.add_assoc, Nat.add_comm, hloop, fillLoop, if_pos hcond, hfilled, hover]
  rfl

end Loop

/-- **The loop never ends** with an empty pattern. -/
theorem fillLoop_idle (hpos : dataSize ≠ 0) : fillLoop fill 0 dataSize bound a 0 = .ok none := by
  have hcond : (0 : UInt32) + 0 < dataSize := UInt32.pos_iff_ne_zero.mpr hpos
  induction bound generalizing a with
  | zero => rw [fillLoop, if_pos hcond]
  | succ bound ih =>
    have hcopy : copyAt a.bytes fill 0 0 = some _ := if_pos (by simp)
    obtain ⟨data, hmem, -⟩ := memcpy_ok hcopy
    have hmem : a.memcpy fill (0 : UInt32).toNat (0 : UInt32).toNat = .ok { a with data := data } := hmem
    rw [fillLoop, if_pos hcond, hmem]
    exact ih

/-- A loop that has ended does not need a greater bound. -/
theorem fillLoop_more {r : UdpOrchestrationCommunicationApp × UInt32} (more : ℕ)
    (h : fillLoop fill fillSize dataSize bound a filled = .ok (some r)) :
    fillLoop fill fillSize dataSize (bound + more) a filled = .ok (some r) := by
  induction bound generalizing a filled with
  | zero =>
    rw [fillLoop] at h
    split_ifs at h with hcond
    · cases h
    · cases more with
      | zero => rw [Nat.add_zero, fillLoop, if_neg hcond, Except.ok.inj h]
      | succ more => rw [Nat.zero_add, fillLoop, if_neg hcond, ← Except.ok.inj h]
  | succ bound ih =>
    rw [Nat.succ_add, fillLoop]
    rw [fillLoop] at h
    split_ifs at h ⊢ with hcond
    · obtain ⟨a', hmem, hloop⟩ := bind_eq_ok.mp h
      rw [hmem]
      exact ih hloop
    · exact h

/-! ## The third `SetFill` -/

/-- The payload has `n` bytes, repeats a pattern and is to be sent. -/
structure Filled (a : UdpOrchestrationCommunicationApp) (fill : Str) (n : UInt32) : Prop where
  length : a.bytes.length = n.toNat
  dataSize : a.dataSize = n
  size : a.size = n
  repeats : Repeats fill n.toNat a.bytes

/-- The last copy, the beginning of the pattern, completes the buffer. -/
theorem memcpy_filled (hlen : a.bytes.length = dataSize.toNat) (hsize : a.dataSize = dataSize)
    (hr : Repeats fill (k * fill.length) a.bytes) (hn : n ≤ fill.length)
    (hsum : k * fill.length + n = dataSize.toNat) :
    ∃ data, a.memcpy fill (k * fill.length) n = .ok { a with data := data } ∧
      Filled { a with data := data, size := dataSize } fill dataSize := by
  obtain ⟨l, hl⟩ := Option.isSome_iff_exists.mp
    (copyAt_isSome.mpr ⟨(hsum.trans hlen.symm).le, hn⟩)
  obtain ⟨data, hmem, hbytes⟩ := memcpy_ok hl
  refine ⟨data, hmem, ?_, hsize, rfl, ?_⟩
  · exact (congrArg List.length hbytes).trans ((length_copyAt hl).trans hlen)
  · rw [← hsum]
    have hrepeats := hr.copyAt hn hl
    rw [← hbytes] at hrepeats
    exact hrepeats

section Pattern

variable (hc : a.Consistent) (hfill : fill.length = fillSize.toNat)
include hc hfill

/-- **A pattern that fits** is repeated. -/
theorem setFillBuffer_filled (hfits : dataSize ≤ fillSize ∨ fillSize ≠ 0 ∧
      (lastFill fillSize dataSize + 1) * fillSize.toNat < 2 ^ 32) :
    ∃ data, Filled { a with data := data, dataSize := dataSize, size := dataSize } fill dataSize ∧
      ∀ bound, lastFill fillSize dataSize ≤ bound →
        a.setFillBuffer junk fill fillSize dataSize bound =
          .ok (some { a with data := data, dataSize := dataSize, size := dataSize }) := by
  obtain ⟨data, halloc, hlen⟩ := @allocate_ok a junk dataSize hc
  by_cases hle : dataSize ≤ fillSize
  · have hn : dataSize.toNat ≤ fill.length := hfill ▸ UInt32.le_iff_toNat_le.mp hle
    obtain ⟨data', hmem, hfilled⟩ := memcpy_filled
      (a := { a with data := data, dataSize := dataSize }) (k := 0) hlen rfl
      (by simpa using repeats_zero) hn (by simp)
    refine ⟨data', hfilled, fun bound _ => ?_⟩
    rw [Nat.zero_mul] at hmem
    unfold setFillBuffer
    dsimp only
    rw [halloc, if_pos hle, hmem]
    rfl
  · have hlt : fillSize < dataSize := UInt32.not_le.mp hle
    obtain ⟨hpos, hfits⟩ := hfits.resolve_left hle
    obtain ⟨hlast, hnext⟩ := lastFill_bounds hpos hlt
    obtain ⟨data', hlen', hr, hloop⟩ := fillLoop_ends
      (a := { a with data := data, dataSize := dataSize }) hfill hlen hpos hlt hfits
    have hd := dataSize.toNat_lt
    have hfilled : (UInt32.ofNat (lastFill fillSize dataSize * fillSize.toNat)).toNat =
        lastFill fillSize dataSize * fillSize.toNat := by
      simp only [UInt32.toNat_ofNat']
      omega
    have hrest : (dataSize - UInt32.ofNat (lastFill fillSize dataSize * fillSize.toNat)).toNat =
        dataSize.toNat - lastFill fillSize dataSize * fillSize.toNat := by
      rw [UInt32.toNat_sub_of_le _ _ (UInt32.le_iff_toNat_le.mpr (by omega)), hfilled]
    rw [Nat.succ_mul] at hnext
    obtain ⟨last, hmem, hall⟩ := memcpy_filled
      (a := { a with data := data', dataSize := dataSize }) hlen' rfl hr
      (n := dataSize.toNat - lastFill fillSize dataSize * fillSize.toNat) (by omega)
      (by rw [hfill]; omega)
    refine ⟨last, hall, fun bound hbound => ?_⟩
    rw [hfill] at hmem
    unfold setFillBuffer
    dsimp only
    rw [halloc, if_neg hle, hloop bound hbound]
    simp only [bind, Except.bind]
    rw [hfilled, hrest, hmem]
    rfl

omit hc hfill in
/-- **An empty pattern** keeps the loop busy for ever. -/
theorem setFillBuffer_idle (hzero : fillSize = 0) (hpos : dataSize ≠ 0) (bound : ℕ) :
    a.setFillBuffer junk fill fillSize dataSize bound = .ok none := by
  subst hzero
  have hle : ¬ dataSize ≤ 0 := fun hle => hpos (UInt32.le_zero_iff.mp hle)
  unfold setFillBuffer
  dsimp only
  rw [if_neg hle, fillLoop_idle hpos]
  rfl

/-- **A pattern that does not fit** is written behind the buffer. -/
theorem setFillBuffer_overrun (hlt : fillSize < dataSize) (hpos : fillSize ≠ 0)
    (hover : 2 ^ 32 ≤ (lastFill fillSize dataSize + 1) * fillSize.toNat) {bound : ℕ}
    (hbound : lastFill fillSize dataSize < bound) :
    a.setFillBuffer junk fill fillSize dataSize bound = .error .outOfRange := by
  obtain ⟨data, halloc, hlen⟩ := @allocate_ok a junk dataSize hc
  have hloop := fillLoop_overrun (a := { a with data := data, dataSize := dataSize }) hfill hlen hpos
    hlt hover hbound
  unfold setFillBuffer
  dsimp only
  rw [halloc, if_neg (UInt32.not_le.mpr hlt), hloop]
  rfl

/-- **A call that ends** has repeated its pattern. -/
theorem setFillBuffer_some
    (h : a.setFillBuffer junk fill fillSize dataSize bound = .ok (some a')) :
    ∃ data, a' = { a with data := data, dataSize := dataSize, size := dataSize } ∧
      a'.Filled fill dataSize := by
  have hmore : ∀ more, a.setFillBuffer junk fill fillSize dataSize (bound + more) =
      .ok (some a') := by
    intro more
    unfold setFillBuffer at h ⊢
    dsimp only at h ⊢
    split_ifs at h ⊢ with hle
    · exact h
    · obtain ⟨r, hloop, hrest⟩ := bind_eq_ok.mp h
      cases r with
      | none => cases hrest
      | some r =>
        rw [fillLoop_more more hloop]
        exact hrest
  by_cases hle : dataSize ≤ fillSize
  · obtain ⟨data, hfilled, hall⟩ := @setFillBuffer_filled a junk fill fillSize dataSize hc hfill
      (Or.inl hle)
    have heq := (hmore _).symm.trans (hall _ (Nat.le_add_left _ bound))
    simp only [Except.ok.injEq, Option.some.injEq] at heq
    exact ⟨data, heq, heq ▸ hfilled⟩
  · have hlt : fillSize < dataSize := UInt32.not_le.mp hle
    by_cases hzero : fillSize = 0
    · have hpos : dataSize ≠ 0 := by
        rintro rfl
        exact UInt32.not_lt_zero hlt
      rw [setFillBuffer_idle hzero hpos] at h
      cases h
    · by_cases hfits : (lastFill fillSize dataSize + 1) * fillSize.toNat < 2 ^ 32
      · obtain ⟨data, hfilled, hall⟩ := @setFillBuffer_filled a junk fill fillSize dataSize hc hfill
          (Or.inr ⟨hzero, hfits⟩)
        have heq := (hmore _).symm.trans (hall _ (Nat.le_add_left _ bound))
        simp only [Except.ok.injEq, Option.some.injEq] at heq
        exact ⟨data, heq, heq ▸ hfilled⟩
      · have hbound : lastFill fillSize dataSize < bound + (lastFill fillSize dataSize + 1) := by
          omega
        have herror := @setFillBuffer_overrun a junk fill fillSize dataSize hc hfill hlt hzero
          (Nat.not_lt.mp hfits) _ hbound
        rw [hmore] at herror
        cases herror

end Pattern

/-- The pattern fills the buffer at once, or the first multiple of its size that does is a `uint32`. -/
def PatternFits (fillSize dataSize : UInt32) : Prop :=
  dataSize ≤ fillSize ∨
    fillSize ≠ 0 ∧ (lastFill fillSize dataSize + 1) * fillSize.toNat < 2 ^ 32

/-- **When the third `SetFill` repeats its pattern.** The call ends with a buffer that shows the
pattern over and over again exactly when the pattern fits. It never ends exactly for an empty pattern
and a buffer that is not empty. In all other cases it writes behind the buffer. -/
theorem setFill_repeats_iff (hc : a.Consistent) (hfill : fill.length = fillSize.toNat) :
    ((∃ N, ∃ a' : UdpOrchestrationCommunicationApp, a'.Filled fill dataSize ∧
        ∀ bound ≥ N, a.setFillBuffer junk fill fillSize dataSize bound = .ok (some a')) ↔
      PatternFits fillSize dataSize) ∧
    ((∀ bound, a.setFillBuffer junk fill fillSize dataSize bound = .ok none) ↔
      fillSize = 0 ∧ dataSize ≠ 0) ∧
    ((∃ N, ∀ bound ≥ N, a.setFillBuffer junk fill fillSize dataSize bound = .error .outOfRange) ↔
      fillSize ≠ 0 ∧ ¬ PatternFits fillSize dataSize) := by
  have hempty : fillSize = 0 → (PatternFits fillSize dataSize ↔ dataSize = 0) := by
    rintro rfl
    simp [PatternFits, UInt32.le_zero_iff]
  have hidle : fillSize = 0 → dataSize ≠ 0 →
      ∀ bound, a.setFillBuffer junk fill fillSize dataSize bound = .ok none :=
    fun hzero hpos bound => setFillBuffer_idle hzero hpos bound
  have hover : fillSize ≠ 0 → ¬ PatternFits fillSize dataSize →
      ∀ bound > lastFill fillSize dataSize,
        a.setFillBuffer junk fill fillSize dataSize bound = .error .outOfRange := by
    intro hpos hfits bound hbound
    obtain ⟨hle, hsum⟩ := not_or.mp hfits
    exact setFillBuffer_overrun hc hfill (UInt32.not_le.mp hle) hpos
      (Nat.not_lt.mp fun hlt => hsum ⟨hpos, hlt⟩) hbound
  -- a run that ends well rules out the two other outcomes, and the other way round
  have hends : ∀ N a', (∀ bound ≥ N, a.setFillBuffer junk fill fillSize dataSize bound =
      .ok (some a')) → PatternFits fillSize dataSize := by
    intro N a' hall
    by_contra hfits
    have hlast := hall (N + lastFill fillSize dataSize + 1) (by omega)
    by_cases hzero : fillSize = 0
    · rw [hidle hzero (fun h => hfits ((hempty hzero).mpr h))] at hlast
      cases hlast
    · rw [hover hzero hfits _ (by omega)] at hlast
      cases hlast
  refine ⟨⟨fun ⟨N, a', _, hall⟩ => hends N a' hall, fun hfits => ?_⟩, ⟨fun hnone => ?_, ?_⟩,
    ⟨fun ⟨N, herror⟩ => ?_, ?_⟩⟩
  · obtain ⟨data, ha', hall⟩ := @setFillBuffer_filled a junk fill fillSize dataSize hc hfill hfits
    exact ⟨_, _, ha', hall⟩
  · have hfits : ¬ PatternFits fillSize dataSize := by
      intro hfits
      obtain ⟨data, -, hall⟩ := @setFillBuffer_filled a junk fill fillSize dataSize hc hfill hfits
      have hsome := (hnone _).symm.trans (hall _ le_rfl)
      cases hsome
    by_cases hzero : fillSize = 0
    · exact ⟨hzero, fun h => hfits ((hempty hzero).mpr h)⟩
    · have herror := (hnone _).symm.trans (hover hzero hfits _ (Nat.lt_succ_self _))
      cases herror
  · rintro ⟨hzero, hpos⟩ bound
    exact hidle hzero hpos bound
  · have hfits : ¬ PatternFits fillSize dataSize := by
      intro hfits
      obtain ⟨data, -, hall⟩ := @setFillBuffer_filled a junk fill fillSize dataSize hc hfill hfits
      have hsome := (herror (N + lastFill fillSize dataSize) (by omega)).symm.trans
        (hall _ (by omega))
      cases hsome
    refine ⟨fun hzero => ?_, hfits⟩
    have hnone := (herror N le_rfl).symm.trans
      (hidle hzero (fun h => hfits ((hempty hzero).mpr h)) N)
    cases hnone
  · rintro ⟨hpos, hfits⟩
    exact ⟨lastFill fillSize dataSize + 1, fun bound hbound => hover hpos hfits bound hbound⟩

/-- Two bytes make five. -/
theorem setFill_repeats_iff_ab : ∃ N, ∃ a' : UdpOrchestrationCommunicationApp,
    a'.Filled "ab".toList 5 ∧ ∀ bound ≥ N,
      (installed 100 1 0 true 100).setFillBuffer (fun _ => '?') "ab".toList 2 5 bound =
        .ok (some a') := by
  have hc : (installed 100 1 0 true 100).Consistent := ⟨rfl, fun h => absurd rfl h⟩
  exact (setFill_repeats_iff hc rfl).1.mpr (Or.inr (by decide))

end UdpOrchestrationCommunicationApp

end IncSim
