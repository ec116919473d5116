import Mathlib.Data.BitVec

/-!
# The arithmetic of one generator: `init_state.h`, `sou_function.h`, `mpcg.h`

`ap_uint<W>` and the host's `uintW_t` are both `BitVec W`. The HLS types widen on `*` and `+`
(`ap_uint<64> * ap_uint<64>` is an `ap_uint<128>`), but every result is stored back into a 64-bit
`rng_state_t`, so only the value modulo `2^64` is observable and the wrapping operations are exact.

| here | there |
| --- | --- |
| `Rng32`, `RngState`              | `rng32_t`, `rng_state_t` (`fpga/rng/src/rng_type.h:8-9`) |
| `RNG_A` … `INIT_STATE`           | the constants of `fpga/rng/src/init_state.h:7-22` |
| `multiStream` … `xorshiftjump`   | `fpga/rng/src/sou/sou_function.h:5-51` (`soum/sou_function.h` is the same text) |
| `stateTransitionFunciton`        | `misc/mpcg.h:20-24` |
| `Mpcg.multiStream`, `Mpcg.multiStreamSeeked` | `misc/mpcg.h:26-34`, whose `seq` is an `int` |
| `Mpcg.RNG_INIT_STATE`            | `misc/init_state.h:7`; `RNG_A` and `RNG_INC` are the same there |
-/

namespace ThundeRiNG

abbrev Rng32 := BitVec 32
abbrev RngState := BitVec 64

/-! ## `init_state.h` -/

def RNG_INIT_STATE : RngState := 0x4643d02bbf7ba16d
def RNG_INC : RngState := 0x000000000000006d
def RNG_A : RngState := 0x5851f42d4c957f2d

def RNG_INC_SEEKED : RngState := 0x219b40fff5054705
def RNG_A_SEEKED : RngState := 0x5b5fee90a1001dcd

/-- For the literals of `Fin 9`. -/
instance neZeroNine : NeZero 9 := ⟨by decide⟩

/-- `INIT_STATE_0` … `INIT_STATE_8`. -/
def INIT_STATE : Fin 9 → RngState
  | 0 => 0x185706b82c2e03f8
  | 1 => 0x2b47fed88766bb05
  | 2 => 0x8b33296d19bf5b4e
  | 3 => 0xf7079824c154bf23
  | 4 => 0xebbf9e97aa16f694
  | 5 => 0x8303569fbe80c471
  | 6 => 0xbeb6d0b73fdb974a
  | 7 => 0xed81149f2fb94e6f
  | 8 => 0x0730f84eec16daf0

/-! ## `sou_function.h` -/

def multiStream (state seq : RngState) : RngState := state + ((RNG_A * (seq <<< 1)) ||| 1)

/-- `-rot` only matters modulo 32: the mask `& 31` is taken before the shift. -/
def outputFunction (oldstate : RngState) : Rng32 :=
  let xorshifted : Rng32 := (((oldstate >>> 18) ^^^ oldstate) >>> 27).setWidth 32
  let rot : Rng32 := (oldstate >>> 59).setWidth 32
  (xorshifted >>> rot) ||| (xorshifted <<< ((-rot) &&& 31))

def pcgOutputXshRs6432 (state : RngState) : Rng32 :=
  (((state >>> 22) ^^^ state) >>> ((state >>> 61) + 22)).setWidth 32

def xorshiftjump (s : Rng32) : Rng32 :=
  let y := s
  let y := y ^^^ (y <<< 13)
  let y := y ^^^ (y >>> 17)
  y ^^^ (y <<< 5)

def applicationFunction (my other : Rng32) : Rng32 := my ^^^ other

/-! ## `mpcg.h` -/

/-- One step of the root generator. -/
def stateTransitionFunciton (state : RngState) : RngState := state * RNG_A + RNG_INC

/-- The host's `multi_stream`: `seq << 1u` is shifted as a 32-bit `int` and sign-extended by the
    multiplication with the 64-bit `RNG_A`. -/
def Mpcg.multiStream (state : RngState) (seq : BitVec 32) : RngState :=
  state + ((RNG_A * (seq <<< 1).signExtend 64) ||| 1)

def Mpcg.multiStreamSeeked (state : RngState) (seq : BitVec 32) : RngState :=
  state + ((0x5b5fee90a1001dcd * seq.signExtend 64 + 0x219b40fff5054705) ||| 1)

def Mpcg.RNG_INIT_STATE : RngState := 0x185706b82c2e03f8

end ThundeRiNG
