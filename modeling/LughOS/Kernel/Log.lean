import LughOS.Library.CString
import LughOS.Library.Numeral

/-!
# The kernel's log

`kprintf` and `log_message` of `log.c`. What a call prints is the list of the characters that it
hands to `kputchar`; `none` is a call that leaves what C defines: a digit buffer is indexed outside
its bounds or read where nothing was stored, an argument is missing, or a string has no end.

The conversions that print numbers store the digits from the last to the first in a buffer on the
stack and print the buffer backwards. They differ in the digits, in the way a digit is taken off
and in the bound of the loop, which is what a `DigitLoop` says.

A conversion `Prints` a text if it does so wherever it stands in a format. For numbers the text is
the standard numeral, with one exception. The most negative `int` is its own negative, so that the
digits of `%d` are negative too and the characters lie below `'0'`.
-/

namespace LughOS.Kernel

open Bytes Numeral

/-- The code of a character. -/
def ascii (c : Char) : Byte := BitVec.ofNat 8 c.toNat

/-- The characters of a literal, without the NUL behind them. -/
def literal (text : String) : List Byte := text.toList.map ascii

/-! ## Digit buffers -/

/-- One loop that stores the digits of a value in `char buffer[size]`. -/
structure DigitLoop (V : Type) where
  size : Nat
  limit : Nat
  digit : V → Byte
  next : V → V
  goOn : V → Bool

namespace DigitLoop

variable {V : Type} (l : DigitLoop V)

/-- The characters of a local array, `none` where nothing has been stored yet. -/
abbrev Buffer := List (Option Byte)

/-- `buffer[i] = c` -/
def store (buffer : Buffer) (i : Nat) (c : Byte) : Option Buffer :=
  if i < buffer.length then some (buffer.set i (some c)) else none

/-- `do { … } while (…)`, with the rounds that are left until `i` is at the limit. -/
def fill : Nat → Buffer → Nat → V → Option (Buffer × Nat)
  | 0, _, _, _ => none
  | rounds + 1, buffer, i, value => do
      let buffer ← store buffer i (l.digit value)
      let value := l.next value
      if l.goOn value && i + 1 < l.limit then fill rounds buffer (i + 1) value
      else some (buffer, i + 1)

/-- `while (i > 0) kputchar(buffer[--i]);` -/
def putBack (buffer : Buffer) : Nat → Option (List Byte)
  | 0 => some []
  | i + 1 => do
      let c ← buffer[i]?.join
      let later ← putBack buffer i
      some (c :: later)

def print (value : V) : Option (List Byte) := do
  let (buffer, i) ← l.fill l.limit (List.replicate l.size none) 0 value
  putBack buffer i

end DigitLoop

/-! ## Conversions -/

/-- The loop of `%d`, whose division and remainder are those of C. -/
def signedLoop : DigitLoop Int where
  size := 12
  limit := 11
  digit value := BitVec.ofInt 8 (48 + value.tmod 10)
  next value := value.tdiv 10
  goOn value := value ≠ 0

/-- The loop of `%u`. -/
def unsignedLoop : DigitLoop Nat where
  size := 12
  limit := 11
  digit value := BitVec.ofNat 8 (48 + value % 10)
  next value := value / 10
  goOn value := value ≠ 0

/-- The character of a hexadecimal digit, with the letters from `a` on. -/
def hexChar (a : Byte) (digit : Nat) : Byte :=
  if digit < 10 then BitVec.ofNat 8 (48 + digit) else BitVec.ofNat 8 (a.toNat + digit - 10)

/-- The loop of `%x`, `%X` and `%p` and of the time in front of a message. -/
def hexLoop (a : Byte) : DigitLoop (BitVec 32) where
  size := 8
  limit := 8
  digit value := hexChar a (value &&& 0xF#32).toNat
  next value := value >>> 4
  goOn _ := true

/-- `case 's'`; a null pointer prints nothing. -/
def printString (mem : Mem) (s : BitVec 32) : Option (List Byte) :=
  let chars := mem.text s.toNat (2 ^ 32 - s.toNat)
  if s = 0 then some []
  else if s.toNat + chars.length < 2 ^ 32 then some chars
  else none

/-- `case 'd'` -/
def printSigned (value : BitVec 32) : Option (List Byte) :=
  if value.toInt < 0 then (signedLoop.print (-value).toInt).map (ascii '-' :: ·)
  else signedLoop.print value.toInt

/-- `case 'u'` -/
def printUnsigned (value : BitVec 32) : Option (List Byte) := unsignedLoop.print value.toNat

/-- `case 'x'` and `case 'X'` -/
def printHex (a : Byte) (value : BitVec 32) : Option (List Byte) := (hexLoop a).print value

/-- `case 'p'` -/
def printPointer (value : BitVec 32) : Option (List Byte) :=
  ((hexLoop (ascii 'a')).print value).map (literal "0x" ++ ·)

/-- `va_arg`, followed by what is printed for the argument. -/
def withArg (print : BitVec 32 → Option (List Byte)) :
    List (BitVec 32) → Option (List Byte × List (BitVec 32))
  | [] => none
  | value :: args => (print value).map (·, args)

/-- The `switch` over the character behind a `%`: what is printed, and the arguments left. -/
def conversion (mem : Mem) (c : Byte) (args : List (BitVec 32)) :
    Option (List Byte × List (BitVec 32)) :=
  if c = ascii 's' then withArg (printString mem) args
  else if c = ascii 'd' then withArg printSigned args
  else if c = ascii 'u' then withArg printUnsigned args
  else if c = ascii 'x' ∨ c = ascii 'X' then
    withArg (printHex (if c = ascii 'X' then ascii 'A' else ascii 'a')) args
  else if c = ascii 'p' then withArg printPointer args
  else if c = ascii '%' then some ([ascii '%'], args)
  else some ([ascii '%', c], args)

/-- The loop over the format. Both places that read a character of it stop at the NUL. -/
def kprintf (mem : Mem) : List Byte → List (BitVec 32) → Option (List Byte)
  | [], _ => some []
  | c :: format, args =>
      if c = 0 then some []
      else if c ≠ ascii '%' then (kprintf mem format args).map (c :: ·)
      else
        match format with
        | [] => some []
        | c :: format =>
            if c = 0 then some []
            else do
              let (text, args) ← conversion mem c args
              let later ← kprintf mem format args
              some (text ++ later)

/-- `log_message`, with the value of `log_ticks`. There are five levels. -/
def logMessage (mem : Mem) (ticks : BitVec 32) (level : Nat) (format : List Byte)
    (args : List (BitVec 32)) : Option (List Byte) :=
  if 5 ≤ level then some []
  else do
    let time ← (hexLoop (ascii 'a')).print ticks
    let text ← kprintf mem format args
    some (literal "[" ++ time ++ literal "] " ++ text ++ literal "\n")

/-! ## What a digit loop prints -/

namespace DigitLoop

variable {V : Type} (l : DigitLoop V)

/-- The digits in the order in which they are stored. -/
def stored : Nat → V → List Byte
  | 0, _ => []
  | rounds + 1, value =>
      l.digit value :: if l.goOn (l.next value) then stored rounds (l.next value) else []

theorem store_next (chars : List Byte) (free : Nat) (c : Byte) :
    store (chars.map some ++ List.replicate (free + 1) none) chars.length c =
      some ((chars ++ [c]).map some ++ List.replicate free none) := by
  have inside : chars.length < (chars.map some ++ List.replicate (free + 1) none).length := by
    simp
  rw [store, if_pos inside, List.set_append_right _ _ (by simp)]
  simp [List.replicate_succ]

/-- The loop stores one digit behind the other. -/
theorem fill_eq {rounds free : Nat} (chars : List Byte) (value : V)
    (left : chars.length + (rounds + 1) = l.limit) (fits : rounds < free) :
    ∃ free', l.fill (rounds + 1) (chars.map some ++ List.replicate free none) chars.length value =
      some ((chars ++ l.stored (rounds + 1) value).map some ++ List.replicate free' none,
        (chars ++ l.stored (rounds + 1) value).length) := by
  induction rounds generalizing free chars value with
  | zero =>
      obtain ⟨free, rfl⟩ := Nat.exists_eq_add_one.mpr fits
      have full : ¬chars.length + 1 < l.limit := by omega
      refine ⟨free, ?_⟩
      rw [fill, store_next]
      simp [full, stored]
  | succ rounds ih =>
      obtain ⟨free, rfl⟩ := Nat.exists_eq_add_one.mpr (Nat.zero_lt_of_lt fits)
      have more : chars.length + 1 < l.limit := by omega
      have length : (chars ++ [l.digit value]).length = chars.length + 1 := by simp
      rw [fill, store_next, stored]
      cases goOn : l.goOn (l.next value) with
      | false => exact ⟨free, by simp [goOn]⟩
      | true =>
          -- `i` is the number of characters stored so far, so the next round starts behind this one
          obtain ⟨free', later⟩ := ih (chars ++ [l.digit value]) (l.next value) (by omega)
            (Nat.lt_of_succ_lt_succ fits)
          refine ⟨free', ?_⟩
          rw [length] at later
          simpa [goOn, more] using later

theorem putBack_eq {chars : List Byte} {i : Nat} (rest : Buffer) (inside : i ≤ chars.length) :
    putBack (chars.map some ++ rest) i = some (chars.take i).reverse := by
  induction i with
  | zero => rfl
  | succ i ih =>
      have stored : (chars.map some ++ rest)[i]? = some (some (chars[i])) := by
        rw [List.getElem?_append_left (by simpa using inside)]
        simp
      rw [putBack, stored, ih (Nat.le_of_succ_le inside), List.take_succ_eq_append_getElem inside,
        List.reverse_concat]
      rfl

/-- A loop that stays within its buffer prints the digits in the opposite order. -/
theorem print_eq (pos : 0 < l.limit) (fits : l.limit ≤ l.size) (value : V) :
    l.print value = some (l.stored l.limit value).reverse := by
  obtain ⟨rounds, limit⟩ := Nat.exists_eq_add_one.mpr pos
  obtain ⟨free, filled⟩ := l.fill_eq [] value (by rw [limit, List.length_nil, Nat.zero_add])
    (by omega : rounds < l.size)
  simp only [List.map_nil, List.nil_append, List.length_nil] at filled
  rw [print, limit, filled]
  exact (putBack_eq _ le_rfl).trans (by rw [List.take_length])

end DigitLoop

/-! ## Digits and numerals -/

/-- The character of a decimal digit. -/
def decimalChar (digit : Nat) : Byte := BitVec.ofNat 8 (48 + digit)

theorem unsignedLoop_stored (rounds n : Nat) :
    unsignedLoop.stored rounds n = (lastDigits 10 rounds n).map decimalChar := by
  induction rounds generalizing n with
  | zero => rfl
  | succ rounds ih =>
      have next : unsignedLoop.next n = n / 10 := rfl
      have goOn : unsignedLoop.goOn (n / 10) = decide (n / 10 ≠ 0) := rfl
      rw [DigitLoop.stored, lastDigits, List.map_cons, next, goOn]
      refine congrArg (decimalChar (n % 10) :: ·) ?_
      by_cases last : n / 10 = 0
      · simp [last]
      · simpa [last] using ih (n / 10)

/-- On values that are not negative, the two decimal loops are the same. -/
theorem signedLoop_stored (rounds n : Nat) :
    signedLoop.stored rounds n = unsignedLoop.stored rounds n := by
  induction rounds generalizing n with
  | zero => rfl
  | succ rounds ih =>
      have digit : signedLoop.digit n = unsignedLoop.digit n := by
        change BitVec.ofInt 8 ((48 : Nat) + (n : Int).tmod (10 : Nat)) = decimalChar (n % 10)
        rw [← Int.ofNat_tmod, ← Nat.cast_add, BitVec.ofInt_natCast, decimalChar]
      have next : signedLoop.next n = (unsignedLoop.next n : Nat) := (Int.ofNat_tdiv n 10).symm
      have goOn : signedLoop.goOn (unsignedLoop.next n : Nat) =
          unsignedLoop.goOn (unsignedLoop.next n) :=
        decide_eq_decide.mpr (not_congr Int.natCast_eq_zero)
      rw [DigitLoop.stored, DigitLoop.stored, digit, next, goOn, ih]

theorem hexLoop_stored (a : Byte) (rounds : Nat) (value : BitVec 32) :
    (hexLoop a).stored rounds value = (lowDigits 16 rounds value.toNat).map (hexChar a) := by
  induction rounds generalizing value with
  | zero => rfl
  | succ rounds ih =>
      have digit : (value &&& 0xF#32).toNat = value.toNat % 16 :=
        (BitVec.toNat_and value 0xF#32).trans (Nat.and_two_pow_sub_one_eq_mod value.toNat 4)
      have next : (value >>> 4).toNat = value.toNat / 16 := by
        rw [BitVec.toNat_ushiftRight, Nat.shiftRight_eq_div_pow]
      rw [lowDigits, List.map_cons, ← digit, ← next, ← ih]
      rfl

theorem unsignedLoop_print {n : Nat} (fits : n < 10 ^ 11) :
    unsignedLoop.print n = some ((numeral 10 n).map decimalChar) := by
  rw [unsignedLoop.print_eq (by decide) (by decide), unsignedLoop_stored, ← List.map_reverse]
  exact congrArg _ (congrArg _ (lastDigits_reverse (by decide) (by decide) fits))

theorem signedLoop_print (n : Nat) : signedLoop.print n = unsignedLoop.print n := by
  rw [signedLoop.print_eq (by decide) (by decide), signedLoop_stored,
    unsignedLoop.print_eq (by decide) (by decide)]
  rfl

/-- Eight hexadecimal digits with the letters from `a` on. -/
def hexText (a : Byte) (value : BitVec 32) : List Byte :=
  (lowDigits 16 8 value.toNat).reverse.map (hexChar a)

theorem hexLoop_print (a : Byte) (value : BitVec 32) :
    (hexLoop a).print value = some (hexText a value) := by
  rw [(hexLoop a).print_eq (Nat.succ_pos 7) le_rfl, hexLoop_stored, ← List.map_reverse]
  rfl

/-! ## Standard numerals -/

/-- The standard decimal numeral of an integer. -/
def decimalText (z : Int) : List Byte :=
  (if z < 0 then literal "-" else []) ++ (numeral 10 z.natAbs).map decimalChar

def decimalDigit (c : Byte) : Option Nat :=
  if 48 ≤ c.toNat ∧ c.toNat ≤ 57 then some (c.toNat - 48) else none

/-- The value of a decimal numeral with an optional sign. -/
def parseDecimal : List Byte → Option Int
  | [] => none
  | c :: text =>
      if c = ascii '-' then (parse decimalDigit 10 text).map fun n : Nat => -(n : Int)
      else (parse decimalDigit 10 (c :: text)).map fun n : Nat => (n : Int)

/-- The value of a hexadecimal digit. -/
def hexDigitValue (c : Byte) : Option Nat :=
  if 48 ≤ c.toNat ∧ c.toNat ≤ 57 then some (c.toNat - 48)
  else if 65 ≤ c.toNat ∧ c.toNat ≤ 70 then some (c.toNat - 55)
  else if 97 ≤ c.toNat ∧ c.toNat ≤ 102 then some (c.toNat - 87)
  else none

theorem decimalDigit_decimalChar : ∀ d < 10, decimalDigit (decimalChar d) = some d := by decide

theorem decimalChar_ne_minus : ∀ d < 10, decimalChar d ≠ ascii '-' := by decide

theorem parse_numeral (n : Nat) :
    parse decimalDigit 10 ((numeral 10 n).map decimalChar) = some n := by
  rw [parse_map decimalDigit_decimalChar (numeral_ne_nil 10 n) fun _ => numeral_lt (by decide),
    value_numeral]

/-- A numeral can be read back. -/
theorem parseDecimal_decimalText (z : Int) : parseDecimal (decimalText z) = some z := by
  have digits := parse_numeral z.natAbs
  unfold decimalText
  split
  · next negative =>
      have minus : literal "-" = [ascii '-'] := rfl
      rw [minus, List.singleton_append, parseDecimal, if_pos rfl, digits, Option.map_some]
      exact congrArg some (by omega)
  · next nonneg =>
      obtain ⟨d, ds, first⟩ := List.exists_cons_of_ne_nil (numeral_ne_nil 10 z.natAbs)
      have small : d < 10 := numeral_lt (by decide) (first ▸ List.mem_cons_self)
      rw [first, List.map_cons] at digits ⊢
      rw [List.nil_append, parseDecimal, if_neg (decimalChar_ne_minus d small), digits,
        Option.map_some]
      exact congrArg some (by omega)

theorem hexDigitValue_hexChar {a : Byte} (letters : a = ascii 'a' ∨ a = ascii 'A') :
    ∀ d < 16, hexDigitValue (hexChar a d) = some d := by
  rcases letters with rfl | rfl <;> decide

/-- A text of eight hexadecimal digits that denotes a value. -/
structure EightDigits (value : BitVec 32) (text : List Byte) : Prop where
  length : text.length = 8
  denotes : parse hexDigitValue 16 text = some value.toNat

theorem eightDigits_hexText {a : Byte} (letters : a = ascii 'a' ∨ a = ascii 'A')
    (value : BitVec 32) : EightDigits value (hexText a value) := by
  constructor
  · rw [hexText, List.length_map, List.length_reverse, length_lowDigits]
  · have nonempty : (lowDigits 16 8 value.toNat).reverse ≠ [] :=
      List.ne_nil_of_length_eq_add_one (by rw [List.length_reverse, length_lowDigits])
    have inBase : ∀ d ∈ (lowDigits 16 8 value.toNat).reverse, d < 16 := fun d member =>
      lowDigits_lt (by decide) (List.mem_reverse.mp member)
    have fits : value.toNat < 16 ^ 8 := value.isLt
    rw [hexText, parse_map (hexDigitValue_hexChar letters) nonempty inBase, value_lowDigits,
      Nat.mod_eq_of_lt fits]

/-! ## Conversions in a format -/

theorem kprintf_char (mem : Mem) {c : Byte} (char : c ≠ 0) (other : c ≠ ascii '%')
    (format : List Byte) (args : List (BitVec 32)) :
    kprintf mem (c :: format) args = (kprintf mem format args).map (c :: ·) := by
  rw [kprintf.eq_def]
  exact (if_neg char).trans (if_pos other)

theorem kprintf_conversion (mem : Mem) {c : Byte} (char : c ≠ 0) (format : List Byte)
    (args : List (BitVec 32)) :
    kprintf mem (ascii '%' :: c :: format) args =
      (conversion mem c args).bind fun r => (kprintf mem format r.2).map (r.1 ++ ·) := by
  have percent : ascii '%' ≠ 0 := by decide
  rw [kprintf, if_neg percent, if_neg (not_not.mpr rfl)]
  simp only [if_neg char, Option.map_eq_bind]
  rfl

/-- Characters that are no part of a conversion are printed as they are. -/
theorem kprintf_plain (mem : Mem) {plain : List Byte}
    (ordinary : ∀ c ∈ plain, c ≠ 0 ∧ c ≠ ascii '%') (format : List Byte) (args : List (BitVec 32)) :
    kprintf mem (plain ++ format) args = (kprintf mem format args).map (plain ++ ·) := by
  induction plain with
  | nil => exact Option.map_id'.symm
  | cons c plain ih =>
      obtain ⟨char, other⟩ := ordinary c List.mem_cons_self
      rw [List.cons_append, kprintf_char mem char other,
        ih fun c' member => ordinary c' (List.mem_cons_of_mem c member), Option.map_map]
      rfl

/-- A conversion prints a text for a value, wherever it stands in a format and whatever follows. -/
def Prints (c : Byte) (value : BitVec 32) (text : List Byte) : Prop :=
  ∀ mem format args, kprintf mem (ascii '%' :: c :: format) (value :: args) =
    (kprintf mem format args).map (text ++ ·)

theorem Prints.of_print {c : Byte} (char : c ≠ 0) {print : BitVec 32 → Option (List Byte)}
    (selected : ∀ mem args, conversion mem c args = withArg print args) {value : BitVec 32}
    {text : List Byte} (printed : print value = some text) : Prints c value text := by
  intro mem format args
  rw [kprintf_conversion mem char, selected, withArg, printed]
  rfl

theorem decimalText_natCast (n : Nat) : decimalText n = (numeral 10 n).map decimalChar := by
  rw [decimalText, if_neg (Int.not_lt.mpr (Int.natCast_nonneg n)), List.nil_append,
    Int.natAbs_natCast]

theorem printSigned_eq {value : BitVec 32} (ordinary : value ≠ 0x80000000#32) :
    printSigned value = some (decimalText value.toInt) := by
  have low := value.le_toInt
  have high := value.toInt_lt
  unfold printSigned decimalText
  split
  · next negative =>
      have negated : (-value).toInt = (value.toInt.natAbs : Int) := by
        rw [BitVec.toInt_neg_of_ne_intMin ordinary]
        omega
      rw [negated, signedLoop_print, unsignedLoop_print (by omega)]
      rfl
  · next nonneg =>
      have whole : value.toInt = (value.toInt.natAbs : Int) := by omega
      rw [whole, signedLoop_print, unsignedLoop_print (by omega), Int.natAbs_natCast]
      rfl

theorem prints_signed {value : BitVec 32} (ordinary : value ≠ 0x80000000#32) :
    Prints (ascii 'd') value (decimalText value.toInt) :=
  .of_print (by decide) (fun _ _ => rfl) (printSigned_eq ordinary)

theorem prints_unsigned (value : BitVec 32) :
    Prints (ascii 'u') value (decimalText value.toNat) := by
  apply Prints.of_print (by decide) (fun _ _ => rfl)
  rw [decimalText_natCast]
  exact unsignedLoop_print (value.isLt.trans (by decide))

theorem prints_hex (value : BitVec 32) :
    Prints (ascii 'x') value (hexText (ascii 'a') value) :=
  .of_print (by decide) (fun _ _ => rfl) (hexLoop_print (ascii 'a') value)

theorem prints_upperHex (value : BitVec 32) :
    Prints (ascii 'X') value (hexText (ascii 'A') value) :=
  .of_print (by decide) (fun _ _ => rfl) (hexLoop_print (ascii 'A') value)

theorem prints_pointer (value : BitVec 32) :
    Prints (ascii 'p') value (literal "0x" ++ hexText (ascii 'a') value) := by
  apply Prints.of_print (by decide) (fun _ _ => rfl)
  rw [printPointer, hexLoop_print]
  rfl

/-! ## The most negative value -/

/-- What `%d` prints for it: ten characters below `'0'`. -/
def mostNegativeText : List Byte := literal "-./,),(-*,("

theorem printSigned_mostNegative : printSigned 0x80000000#32 = some mostNegativeText := by decide

theorem prints_mostNegative : Prints (ascii 'd') 0x80000000#32 mostNegativeText :=
  .of_print (by decide) (fun _ _ => rfl) printSigned_mostNegative

/-- A conversion prints one text only. -/
theorem Prints.unique {c : Byte} {value : BitVec 32} {text text' : List Byte}
    (prints : Prints c value text) (prints' : Prints c value text') : text = text' := by
  have same := (prints (fun _ => 0) [] []).symm.trans (prints' (fun _ => 0) [] [])
  simpa [kprintf] using same

/-- `%d` prints the standard numeral of the signed value, which can be read back. -/
structure SignedFaithful (value : BitVec 32) : Prop where
  prints : Prints (ascii 'd') value (decimalText value.toInt)
  denotes : parseDecimal (decimalText value.toInt) = some value.toInt

/-- The same for `%u` and the unsigned value, and eight digits for the other conversions. -/
structure UnsignedFaithful (value : BitVec 32) : Prop where
  decimal : Prints (ascii 'u') value (decimalText value.toNat)
  denotes : parseDecimal (decimalText value.toNat) = some (value.toNat : Int)
  hex : ∃ text, EightDigits value text ∧ Prints (ascii 'x') value text
  upperHex : ∃ text, EightDigits value text ∧ Prints (ascii 'X') value text
  pointer : ∃ text, EightDigits value text ∧ Prints (ascii 'p') value (literal "0x" ++ text)

theorem unsignedFaithful (value : BitVec 32) : UnsignedFaithful value where
  decimal := prints_unsigned value
  denotes := parseDecimal_decimalText value.toNat
  hex := ⟨_, eightDigits_hexText (.inl rfl) value, prints_hex value⟩
  upperHex := ⟨_, eightDigits_hexText (.inr rfl) value, prints_upperHex value⟩
  pointer := ⟨_, eightDigits_hexText (.inl rfl) value, prints_pointer value⟩

/-- A signed conversion never leaves its buffer, whatever it prints. -/
theorem prints_signed_some (value : BitVec 32) : ∃ text, Prints (ascii 'd') value text := by
  by_cases ordinary : value = 0x80000000#32
  · exact ⟨mostNegativeText, ordinary ▸ prints_mostNegative⟩
  · exact ⟨_, prints_signed ordinary⟩

/-- The conversions that print numbers are faithful, except `%d` at the most negative value. All of
them print something for every value, so that no digit buffer is indexed outside its bounds. -/
theorem kprintf_faithful_iff (value : BitVec 32) :
    (SignedFaithful value ↔ value ≠ 0x80000000#32) ∧ UnsignedFaithful value ∧
      ∀ c ∈ literal "duxXp", ∃ text, Prints c value text := by
  refine ⟨⟨?_, fun ordinary => ?_⟩, unsignedFaithful value, ?_⟩
  · -- a text that cannot be read back is not the numeral of any value
    rintro ⟨prints, denotes⟩ rfl
    have garbled : parseDecimal mostNegativeText = none := by decide
    rw [prints.unique prints_mostNegative, garbled] at denotes
    exact absurd denotes (Option.some_ne_none _).symm
  · exact ⟨prints_signed ordinary, parseDecimal_decimalText value.toInt⟩
  · have every : ∀ c ∈ literal "duxXp", c = ascii 'd' ∨ c = ascii 'u' ∨ c = ascii 'x' ∨
        c = ascii 'X' ∨ c = ascii 'p' := by decide
    intro c member
    rcases every c member with rfl | rfl | rfl | rfl | rfl
    · exact prints_signed_some value
    · exact ⟨_, prints_unsigned value⟩
    · exact ⟨_, prints_hex value⟩
    · exact ⟨_, prints_upperHex value⟩
    · exact ⟨_, prints_pointer value⟩

theorem kprintf_mostNegative :
    kprintf (fun _ => 0) (literal "%d") [0x80000000#32] = some (literal "-./,),(-*,(") ∧
      decimalText (0x80000000#32).toInt = literal "-2147483648" ∧
      parseDecimal (literal "-./,),(-*,(") = none := by
  decide

/-! ## Messages -/

/-- The line that `SYS_EXIT` logs, with the time in front of it. -/
def exitLine (ticks task code : BitVec 32) : List Byte :=
  literal "[" ++ hexText (ascii 'a') ticks ++ literal "] " ++
    (literal "SYS_EXIT: task=" ++ (decimalText task.toNat ++
      (literal " exit_code=" ++ decimalText code.toInt))) ++ literal "\n"

/-- The exit of a task is logged with its number and its code. -/
theorem logMessage_exit (mem : Mem) (ticks task : BitVec 32) {code : BitVec 32}
    (ordinary : code ≠ 0x80000000#32) :
    logMessage mem ticks 1 (literal "SYS_EXIT: task=%u exit_code=%d") [task, code] =
      some (exitLine ticks task code) := by
  have format : literal "SYS_EXIT: task=%u exit_code=%d" = literal "SYS_EXIT: task=" ++
      ascii '%' :: ascii 'u' :: (literal " exit_code=" ++ [ascii '%', ascii 'd']) := rfl
  have printed : kprintf mem (literal "SYS_EXIT: task=%u exit_code=%d") [task, code] =
      some (literal "SYS_EXIT: task=" ++ (decimalText task.toNat ++
        (literal " exit_code=" ++ decimalText code.toInt))) := by
    rw [format, kprintf_plain mem (by decide), prints_unsigned task, kprintf_plain mem (by decide),
      prints_signed ordinary, kprintf]
    simp
  rw [logMessage, if_neg (by decide), hexLoop_print, printed]
  rfl

end LughOS.Kernel
