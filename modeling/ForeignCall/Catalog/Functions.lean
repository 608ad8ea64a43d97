import ForeignCall.Call.Program

/-!
# A catalogue of native functions

Native functions of every shape that the calling convention knows: scalars of each width, structs in
registers and in memory, functions that take, call and return function pointers, functions that
write through pointers, and one that reads a variable argument list. Each has a name and a fixed
code address. Integer arithmetic wraps.
-/

namespace ForeignCall.Catalog

open Abi

/-! ## Arguments and results -/

/-- The record of an integer kind. -/
def int (signed : Bool) (width : Width) : Record := .int ⟨signed, width⟩

/-- The record of a C `int`. -/
def cInt : Record := .int .int32

/-- The record of a 64-bit integer. -/
def long : Record := .int .int64

/-- The record of a size. -/
def size : Record := .int .uint64

/-- The record of a single-precision number. -/
def single : Record := .float .float32

/-- The record of a double-precision number. -/
def double : Record := .float .float64

/-- The record of a function without result. -/
def nothing : Record := .struct []

/-- The integer of a kind in bytes. -/
def toInt (k : IntKind) (bytes : List UInt8) : Int :=
  k.ofBits (Bytes.toNat (Bytes.fit k.bytes bytes))

/-- The C `int` in bytes. -/
def toCInt (bytes : List UInt8) : Int := toInt .int32 bytes

/-- The address in bytes. -/
def toAddress (bytes : List UInt8) : Nat := Bytes.toNat (Bytes.fit addressSize bytes)

/-- The single-precision number in bytes. -/
def toSingle (bytes : List UInt8) : Float32 :=
  Float32.ofBits (UInt32.ofNat (Bytes.toNat (Bytes.fit 4 bytes)))

/-- The double-precision number in bytes. -/
def toDouble (bytes : List UInt8) : Float :=
  Float.ofBits (UInt64.ofNat (Bytes.toNat (Bytes.fit 8 bytes)))

/-- The bytes of a C `int`. -/
def ofCInt (i : Int) : List UInt8 := Bytes.ofInt 4 i

/-- The bytes of a 64-bit integer. -/
def ofLong (i : Int) : List UInt8 := Bytes.ofInt 8 i

/-- The bytes of an address. -/
def ofAddress (a : Nat) : List UInt8 := Bytes.ofNat addressSize a

/-- The bytes of a single-precision number. -/
def ofSingle (x : Float32) : List UInt8 := Bytes.ofNat 4 x.toBits.toNat

/-- The bytes of a double-precision number. -/
def ofDouble (x : Float) : List UInt8 := Bytes.ofNat 8 x.toBits.toNat

/-- The argument at a position. -/
def nth (arguments : List (List UInt8)) (i : Nat) : List UInt8 := arguments.getD i []

/-- The part of a struct that begins at an offset. -/
def part (bytes : List UInt8) (offset width : Nat) : List UInt8 :=
  Bytes.fit width (bytes.drop offset)

/-- A function of its fixed arguments that only computes. -/
def pureFunction (result : Record) (parameters : List Record)
    (f : List (List UInt8) → List UInt8) : NativeFunction :=
  ⟨result, parameters, fun arguments _ => .finish (f arguments)⟩

/-- A function of its fixed arguments. -/
def function (result : Record) (parameters : List Record) (f : List (List UInt8) → Native) :
    NativeFunction :=
  ⟨result, parameters, fun arguments _ => f arguments⟩

/-! ## Scalars -/

/-- A function that returns its argument. -/
def echo (r : Record) : NativeFunction := pureFunction r [r] fun a => nth a 0

/-- A function of C `int`s. -/
def ofCInts (count : Nat) (f : List Int → Int) : NativeFunction :=
  pureFunction cInt (List.replicate count cInt) fun a => ofCInt (f (a.map toCInt))

/-- The sum of six numbers of different types, as doubles from left to right. -/
def mix : NativeFunction :=
  pureFunction double [int true .w8, int false .w16, cInt, single, double, long] fun a =>
    let terms := [
      Float.ofInt (toInt ⟨true, .w8⟩ (nth a 0)), Float.ofInt (toInt ⟨false, .w16⟩ (nth a 1)),
      Float.ofInt (toCInt (nth a 2)), (toSingle (nth a 3)).toFloat, toDouble (nth a 4),
      Float.ofInt (toInt .int64 (nth a 5))]
    ofDouble (terms.tail.foldl (· + ·) (terms.headD 0))

/-- A polynomial of ten integers. -/
def polyLong : NativeFunction :=
  pureFunction long (List.replicate 10 long) fun a =>
    ofLong ((a.map (toInt .int64)).foldl (fun acc v => acc * 10 + v) 0)

/-- A polynomial of ten doubles. -/
def polyDouble : NativeFunction :=
  pureFunction double (List.replicate 10 double) fun a =>
    ofDouble ((a.map toDouble).foldl (fun acc v => acc * 2 + v) 0)

/-! ## Memory -/

/-- The length of a C string, and -1 at the null address. -/
def textLength : NativeFunction :=
  function cInt [.address] fun a => .look fun h =>
    let address := toAddress (nth a 0)
    .finish (ofCInt (if address = 0 then -1 else (h.cString address).length))

/-- Letters from `a` to `z`, again and again, written into a buffer. -/
def fill : NativeFunction :=
  function nothing [.address, size] fun a =>
    let letters := (List.range (toAddress (nth a 1))).map fun i => UInt8.ofNat (97 + i % 26)
    .store (toAddress (nth a 0)) letters (.finish [])

/-- A small letter of ASCII made large. -/
def upper (b : UInt8) : UInt8 := if 97 ≤ b ∧ b ≤ 122 then b - 32 else b

/-- A buffer in capital letters, and how many bytes have changed. -/
def upcase : NativeFunction :=
  function cInt [.address, size] fun a => .look fun h =>
    let address := toAddress (nth a 0)
    let before := h.load address (toAddress (nth a 1))
    .store address (before.map upper)
      (.finish (ofCInt (before.countP fun b => upper b != b)))

/-- The C `int` at an address, and -1 at the null address. -/
def loadInt : NativeFunction :=
  function cInt [.address] fun a => .look fun h =>
    let address := toAddress (nth a 0)
    .finish (if address = 0 then ofCInt (-1) else h.load address 4)

/-- A C `int` stored at an address. -/
def storeInt : NativeFunction :=
  function nothing [.address, cInt] fun a =>
    .store (toAddress (nth a 0)) (Bytes.fit 4 (nth a 1)) (.finish [])

/-- The address of a constant text. -/
def greetingAddress : Nat := 0x400000000000

/-- The bytes of the constant text. -/
def greeting : List UInt8 := "hello, native".toUTF8.data.toList ++ [0]

/-! ## Structs -/

/-- The record of a point of two `int`s. -/
def point : Record := .struct [cInt, cInt]

/-- The record of a pair of numbers of one kind. -/
def pair (r : Record) : Record := .struct [r, r]

/-- The record of three 64-bit integers. -/
def big : Record := .struct [long, long, long]

/-- The record of two points and a number. -/
def line : Record := .struct [point, point, long]

/-- The record of members of three widths. -/
def small : Record := .struct [int true .w8, cInt, int true .w16]

/-- The record of an integer and a double. -/
def mixed : Record := .struct [long, double]

/-- The sum of the members of a point. -/
def sumPoint (p : List UInt8) : Int := toCInt (part p 0 4) + toCInt (part p 4 4)

/-- A pair with its halves exchanged. -/
def swapHalves (width : Nat) (r : Record) : NativeFunction :=
  pureFunction (pair r) [pair r] fun a =>
    part (nth a 0) width width ++ part (nth a 0) 0 width

/-- The integer plus one and the double times two. -/
def bumpMixed : NativeFunction :=
  pureFunction mixed [mixed] fun a =>
    ofLong (toInt .int64 (part (nth a 0) 0 8) + 1) ++ ofDouble (toDouble (part (nth a 0) 8 8) * 2)

/-- The members of a small struct, weighted. -/
def sumSmall : NativeFunction :=
  pureFunction long [small] fun a =>
    let s := nth a 0
    ofLong (toInt ⟨true, .w8⟩ (part s 0 1) * 1000000 + toCInt (part s 4 4)
      + toInt ⟨true, .w16⟩ (part s 8 2) * 1000)

/-- A number, its double and its triple. -/
def makeBig : NativeFunction :=
  pureFunction big [long] fun a =>
    let i := toInt .int64 (nth a 0)
    ofLong i ++ ofLong (2 * i) ++ ofLong (3 * i)

/-- The sum of three numbers. -/
def sumBig : NativeFunction :=
  pureFunction long [big] fun a =>
    ofLong ([0, 8, 16].foldl (fun n o => n + toInt .int64 (part (nth a 0) o 8)) 0)

/-- A line with its ends exchanged and its number negated. -/
def swapLine : NativeFunction :=
  pureFunction line [line] fun a =>
    part (nth a 0) 8 8 ++ part (nth a 0) 0 8 ++ ofLong (-toInt .int64 (part (nth a 0) 16 8))

/-! ## Function pointers -/

/-- A function pointer called with one argument. -/
def callWith (r : Record) (address : Nat) (argument : List UInt8)
    (next : List UInt8 → Native) : Native :=
  .enter address r [(r, argument)] next

/-- A function pointer called with a C `int`, and -1 at the null address. -/
def applyTo (address : Nat) (argument : List UInt8) : Native :=
  if address = 0 then .finish (ofCInt (-1)) else callWith cInt address argument .finish

/-- A function pointer called twice. -/
def applyTwice : NativeFunction :=
  function cInt [.address, cInt, cInt] fun a =>
    let address := toAddress (nth a 0)
    callWith cInt address (nth a 1) fun first =>
      callWith cInt address (nth a 2) fun second =>
        .finish (ofCInt (toCInt first * 1000 + toCInt second))

/-- One function pointer called with what the other returns. -/
def compose : NativeFunction :=
  function cInt [.address, .address, cInt] fun a =>
    callWith cInt (toAddress (nth a 1)) (nth a 2) fun inner =>
      callWith cInt (toAddress (nth a 0)) inner .finish

/-- A function pointer called with the `count` numbers from `start` on. -/
def callEach (address : Nat) (start : Nat) : Nat → Native
  | 0 => .finish []
  | count + 1 =>
    .enter address nothing [(cInt, ofCInt start)] fun _ => callEach address (start + 1) count

/-! ## A variable argument list -/

/-- One argument of a variable list, by the letter of its type. -/
def collectOne (h : Heap) (c : Cursor) (letter : UInt8) : Collected × Cursor :=
  match Char.ofUInt8 letter with
  | 'i' => let (b, c) := c.pop cInt; (.int (toCInt b), c)
  | 'u' => let (b, c) := c.pop (int false .w32); (.int (toInt ⟨false, .w32⟩ b), c)
  | 'l' => let (b, c) := c.pop long; (.int (toInt .int64 b), c)
  | 'L' => let (b, c) := c.pop size; (.int (toInt .uint64 b), c)
  | 'd' => let (b, c) := c.pop double; (.float (UInt64.ofNat (Bytes.toNat b)), c)
  | 'p' => let (b, c) := c.pop .address; (.address (toAddress b), c)
  | _ =>
    let (b, c) := c.pop .address
    let address := toAddress b
    (.text (if address = 0 then none else some (h.cString address)), c)

/-- The arguments of a variable list, by the letters of their types. -/
def collect (h : Heap) (c : Cursor) : List UInt8 → List Collected
  | [] => []
  | letter :: letters =>
    let (item, c) := collectOne h c letter
    item :: collect h c letters

/-- A function that reports its variable arguments and returns their number. -/
def vaCollect : NativeFunction where
  result := cInt
  parameters := [.address]
  body arguments cursor := .look fun h =>
    let items := collect h cursor (h.cString (toAddress (nth arguments 0)))
    .report "va_collect" (some items) (.finish (ofCInt items.length))

/-! ## The functions of the C library -/

/-- The decimal number at the start of a text, after blanks and a sign. -/
def readDecimal (bytes : List UInt8) : Int :=
  let bytes := bytes.dropWhile fun b => b = 32 ∨ (9 ≤ b ∧ b ≤ 13)
  let (negative, bytes) := match bytes with
    | 45 :: rest => (true, rest)
    | 43 :: rest => (false, rest)
    | _ => (false, bytes)
  let digits := bytes.takeWhile fun b => 48 ≤ b ∧ b ≤ 57
  let n : Nat := digits.foldl (fun acc b => acc * 10 + (b.toNat - 48)) 0
  if negative then -n else n

/-- The error number of a result out of range. -/
def outOfRange : Int := 34

/-- The number at the start of a text as a C `int`. A number beyond the nearer end of a `long`
counts as that end and sets the error number. -/
def textToInt : NativeFunction :=
  function cInt [.address] fun a => .look fun h =>
    let n := readDecimal (h.cString (toAddress (nth a 0)))
    if n < -signedLimit then .setErrno outOfRange (.finish (ofCInt (-signedLimit)))
    else if n < signedLimit then .finish (ofCInt n)
    else .setErrno outOfRange (.finish (ofCInt (signedLimit - 1)))

/-- The functions that the process exports under their names. -/
def exported : List (String × NativeFunction) := [
  ("strlen", function size [.address] fun a => .look fun h =>
    .finish (ofLong (h.cString (toAddress (nth a 0))).length)),
  ("abs", ofCInts 1 fun a => (a.headD 0).natAbs),
  ("labs", pureFunction long [long] fun a => ofLong (toInt .int64 (nth a 0)).natAbs),
  ("atoi", textToInt)]

/-! ## The catalogue -/

/-- The code address of the function at a position. -/
def codeAt (position : Nat) : Nat := 0x500000000000 + 16 * position

/-- The code address of the exported function at a position. -/
def exportedAt (position : Nat) : Nat := 0x510000000000 + 16 * position

/-- The negative of a C `int`. -/
def negate : NativeFunction := ofCInts 1 fun a => -(a.headD 0)

/-- The functions that return their argument. -/
def echoes : List (String × NativeFunction) := [
  ("echo_i8", echo (int true .w8)), ("echo_u8", echo (int false .w8)),
  ("echo_i16", echo (int true .w16)), ("echo_u16", echo (int false .w16)),
  ("echo_i32", echo (int true .w32)), ("echo_u32", echo (int false .w32)),
  ("echo_i64", echo (int true .w64)), ("echo_u64", echo (int false .w64)),
  ("echo_f32", echo single), ("echo_f64", echo double), ("echo_ptr", echo .address)]

/-- The functions of scalars, the first of them the one that `get_negate` returns. -/
def scalars : List (String × NativeFunction) := [
  ("negate_i32", negate),
  ("negate_i8", pureFunction (int true .w8) [int true .w8] fun a =>
    Bytes.ofInt 1 (-toInt ⟨true, .w8⟩ (nth a 0))),
  ("add_i32", ofCInts 2 fun a => a.foldl (· + ·) 0),
  ("mul_f64", pureFunction double [double, double] fun a =>
    ofDouble (toDouble (nth a 0) * toDouble (nth a 1))),
  ("no_args", ofCInts 0 fun _ => 42),
  ("nothing", function nothing [] fun _ => .report "nothing" none (.finish [])),
  ("is_even", ofCInts 1 fun a => if a.headD 0 % 2 = 0 then 1 else 0),
  ("mix", mix), ("poly_i64", polyLong), ("poly_f64", polyDouble)]

/-- The functions of memory. -/
def memories : List (String × NativeFunction) := [
  ("c_len", textLength), ("fill", fill), ("upcase", upcase), ("load_i32", loadInt),
  ("store_i32", storeInt),
  ("static_string", pureFunction .address [] fun _ => ofAddress greetingAddress),
  ("fail_with", function cInt [cInt] fun a =>
    .setErrno (toCInt (nth a 0)) (.finish (ofCInt (-1)))),
  ("wait_flag", function cInt [.address] fun a =>
    .wait (toAddress (nth a 0)) (.finish (ofCInt 7))),
  ("va_collect", vaCollect)]

/-- The functions of structs. -/
def structs : List (String × NativeFunction) := [
  ("make_point", pureFunction point [cInt, cInt] fun a => nth a 0 ++ nth a 1),
  ("sum_point", pureFunction cInt [point] fun a => ofCInt (sumPoint (nth a 0))),
  ("swap_dpair", swapHalves 8 double), ("swap_fpair", swapHalves 4 single),
  ("bump_mixed", bumpMixed), ("sum_small", sumSmall), ("make_big", makeBig),
  ("sum_big", sumBig), ("swap_line", swapLine),
  ("union_first", pureFunction single [.struct [single]] fun a => nth a 0),
  ("word_bits", pureFunction cInt [.struct [cInt]] fun a => nth a 0),
  ("aligned_sum", pureFunction single [pair single] fun a =>
    ofSingle (toSingle (part (nth a 0) 0 4) + toSingle (part (nth a 0) 4 4)))]

/-- The functions of function pointers. -/
def pointers : List (String × NativeFunction) := [
  ("apply", function cInt [.address, cInt] fun a => applyTo (toAddress (nth a 0)) (nth a 1)),
  ("apply_last", function cInt [cInt, .address] fun a =>
    callWith cInt (toAddress (nth a 1)) (nth a 0) .finish),
  ("apply_twice", applyTwice), ("compose", compose),
  ("map_point", function point [.address, point] fun a =>
    callWith point (toAddress (nth a 0)) (nth a 1) .finish),
  ("each", function nothing [.address, cInt] fun a =>
    callEach (toAddress (nth a 0)) 0 (toCInt (nth a 1)).toNat),
  ("get_negate", pureFunction .address [] fun _ => ofAddress (codeAt echoes.length))]

/-- The functions of the catalogue. -/
def functions : List (String × NativeFunction) :=
  echoes ++ scalars ++ memories ++ structs ++ pointers

/-- The code address of a function by its name. -/
def address? (name : String) : Option Nat :=
  (functions.findIdx? fun f => f.1 == name).map codeAt

/-- The function of the catalogue at a code address. -/
def function? (address : Nat) : Option (String × NativeFunction) :=
  if codeAt 0 ≤ address ∧ (address - codeAt 0) % 16 = 0 then functions[(address - codeAt 0) / 16]?
  else none

/-- The code address of an exported function by its name. -/
def exported? (name : String) : Option Nat :=
  (exported.findIdx? fun f => f.1 == name).map exportedAt

/-- The native function at a code address. -/
def native (address : Nat) : Option NativeFunction :=
  let library := if exportedAt 0 ≤ address ∧ (address - exportedAt 0) % 16 = 0 then
    exported[(address - exportedAt 0) / 16]? else none
  ((function? address) <|> library).map Prod.snd

/-- A world with the constant text in place. -/
def world : World :=
  let w := World.start
  { w with memory := { w.memory with heap := w.memory.heap.store greetingAddress greeting } }

end ForeignCall.Catalog
