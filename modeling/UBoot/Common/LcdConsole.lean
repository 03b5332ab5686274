import UBoot.Library.Bits
import UBoot.Library.Raster
import UBoot.Library.Runs
import UBoot.Library.Screen

/-!
The LCD console of common/lcd.c, as a terminal. Addresses count from lcd_base, and `vl_bpix` of the panel
is LCD_BPP. The logo and the font are given; there is no splash screen.
-/

namespace UBoot.Common.LcdConsole

open Library.Bits Library.Memory Library.Raster Library.Runs Library.Screen

/-- LCD_BPP, where COLOR_MASK is defined. -/
inductive Bpp where
  | monochrome
  | color8
deriving DecidableEq

def Bpp.code : Bpp → Nat
  | .monochrome => 0
  | .color8 => 3

def nbits (bpp : Bpp) : Nat := 1 <<< bpp.code

/-- CONFIG_LCD_LOGO and CONFIG_LCD_INFO_BELOW_LOGO, with BMP_LOGO_HEIGHT. -/
inductive Logo where
  | none
  | above (bmpLogoHeight : Nat)
  | infoBelow (bmpLogoHeight : Nat)

structure Config where
  bpp : Bpp
  logo : Logo
  whiteOnBlack : Bool
  vlCol : Nat
  vlRow : Nat
  vl_col_lt : vlCol < 2 ^ 16
  vl_row_lt : vlRow < 2 ^ 16
  videoFontdata : Nat → UInt8
  /-- What the logo and its texts leave of a frame buffer. -/
  paint : (Nat → UInt8) → Nat → UInt8

def videoFontWidth : Nat := 8
def videoFontHeight : Nat := 16

/-- The lines above the console. -/
def Config.aboveConsole (cfg : Config) : Nat :=
  match cfg.logo with
  | .above bmpLogoHeight => bmpLogoHeight
  | .none | .infoBelow _ => 0

def consoleRows (cfg : Config) : Int := ((cfg.vlRow : Int) - cfg.aboveConsole).tdiv videoFontHeight
def consoleCols (cfg : Config) : Int := (cfg.vlCol : Int).tdiv videoFontWidth
def lcdLineLength (cfg : Config) : Nat := cfg.vlCol * nbits cfg.bpp / 8

def consoleRowSize (cfg : Config) : Nat := videoFontHeight * lcdLineLength cfg
def consoleSize (cfg : Config) : Nat := (consoleRowSize cfg * consoleRows cfg).toNat
def consoleScrollSize (cfg : Config) : Nat := consoleSize cfg - consoleRowSize cfg

def colorMask (cfg : Config) (c : UInt8) : UInt8 :=
  match cfg.bpp with
  | .monochrome => c ||| c <<< 1 ||| c <<< 2 ||| c <<< 3 ||| c <<< 4 ||| c <<< 5 ||| c <<< 6 ||| c <<< 7
  | .color8 => c

def colorBlack : UInt8 := 0

def colorWhite (cfg : Config) : UInt8 :=
  match cfg.bpp with
  | .monochrome => 1
  | .color8 => 15

structure Console where
  frame : Nat → UInt8
  lcdColorFg : UInt8
  lcdColorBg : UInt8
  lcdConsoleAddress : Nat
  consoleCol : Int
  consoleRow : Int
  lcdIsEnabled : Bool
  serial : List UInt8

section Model
variable (cfg : Config)

/-! ### Drawing -/

/-- Eight pixels of a line of a character, from the highest bit on. -/
def colorBits (fg bg : UInt8) : Nat → UInt8 → List UInt8
  | 0, _ => []
  | more + 1, bits => (if bits &&& 0x80 ≠ 0 then fg else bg) :: colorBits fg bg more (bits <<< 1)

/-- `byte << count` as a uchar. -/
def shiftedUp (byte : UInt8) (count : Nat) : UInt8 := UInt8.ofNat (byte.toNat <<< count)

def shiftedDown (byte : UInt8) (count : Nat) : UInt8 := UInt8.ofNat (byte.toNat >>> count)

/-- One line of the characters in a monochrome frame. -/
def monochromeLine (fg bg : UInt8) (off row : Nat) : List UInt8 → (rest : UInt8) → (d : Nat) →
    (Nat → UInt8) → Nat → UInt8
  | [], rest, d, frame => Function.update frame d (rest ||| (frame d &&& UInt8.ofNat ((1 <<< (8 - off)) - 1)))
  | c :: s, rest, d, frame =>
      let bits := cfg.videoFontdata (c.toNat * videoFontHeight + row)
      let sym := (colorMask cfg fg &&& bits) ||| (colorMask cfg bg &&& ~~~bits)
      monochromeLine fg bg off row s (shiftedUp sym (8 - off)) (d + 1)
        (Function.update frame d (rest ||| shiftedDown sym off))

def color8Line (fg bg : UInt8) (row : Nat) : List UInt8 → (d : Nat) → (Nat → UInt8) → Nat → UInt8
  | [], _, frame => frame
  | c :: s, d, frame =>
      color8Line fg bg row s (d + 8)
        (splice frame d (colorBits fg bg 8 (cfg.videoFontdata (c.toNat * videoFontHeight + row))))

def drawLine (fg bg : UInt8) (off row : Nat) (str : List UInt8) (d : Nat) (frame : Nat → UInt8) :
    Nat → UInt8 :=
  match cfg.bpp with
  | .monochrome =>
      monochromeLine cfg fg bg off row str (frame d &&& UInt8.ofNat (256 - 1 <<< (8 - off))) d frame
  | .color8 => color8Line cfg fg bg row str d frame

def lcdDrawchars (console : Console) (x y : Nat) (str : List UInt8) : Console :=
  let dest := y * lcdLineLength cfg + x * (1 <<< cfg.bpp.code) / 8
  let off := x * (1 <<< cfg.bpp.code) % 8
  { console with
    frame := (List.range videoFontHeight).foldl
      (fun frame row => drawLine cfg console.lcdColorFg console.lcdColorBg off row str
        (dest + row * lcdLineLength cfg) frame) console.frame }

/-- An int as a ushort. -/
def ushort (n : Int) : Nat := (n % 2 ^ 16).toNat

def lcdPutcXy (console : Console) (x y : Nat) (c : UInt8) : Console :=
  lcdDrawchars cfg console x (ushort (y + cfg.aboveConsole)) [c]

/-! ### The console -/

def consoleScrollup (console : Console) : Console :=
  let moved := splice console.frame console.lcdConsoleAddress
    (slice console.frame (console.lcdConsoleAddress + consoleRowSize cfg) (consoleScrollSize cfg))
  { console with
    frame := splice moved (console.lcdConsoleAddress + consoleSize cfg - consoleRowSize cfg)
      (List.replicate (consoleRowSize cfg) (colorMask cfg console.lcdColorBg)) }

/-- A character where the cursor is. -/
def putcHere (console : Console) (c : UInt8) : Console :=
  lcdPutcXy cfg console (ushort (console.consoleCol * videoFontWidth))
    (ushort (console.consoleRow * videoFontHeight)) c

def consoleBack (console : Console) : Console :=
  let console := { console with consoleCol := console.consoleCol - 1 }
  let console :=
    if console.consoleCol < 0 then
      let console := { console with
        consoleCol := consoleCols cfg - 1
        consoleRow := console.consoleRow - 1 }
      if console.consoleRow < 0 then { console with consoleRow := 0 } else console
    else console
  putcHere cfg console 32

def consoleNewline (console : Console) : Console :=
  let console := { console with
    consoleRow := console.consoleRow + 1
    consoleCol := 0 }
  if console.consoleRow ≥ consoleRows cfg then
    let console := consoleScrollup cfg console
    { console with consoleRow := console.consoleRow - 1 }
  else console

/-- `col |= 8; col &= ~7`, in ints. -/
def tabbed (col : Int) : Int := ((BitVec.ofInt 32 col ||| 8#32) &&& ~~~7#32).toInt

def lcdPutc (console : Console) (c : UInt8) : Console :=
  if ¬ console.lcdIsEnabled then { console with serial := console.serial ++ [c] }
  else if c = 13 then { console with consoleCol := 0 }
  else if c = 10 then consoleNewline cfg console
  else if c = 9 then
    let console := { console with consoleCol := tabbed console.consoleCol }
    if console.consoleCol ≥ consoleCols cfg then consoleNewline cfg console else console
  else if c = 8 then consoleBack cfg console
  else
    let console := putcHere cfg console c
    let console := { console with consoleCol := console.consoleCol + 1 }
    if console.consoleCol ≥ consoleCols cfg then consoleNewline cfg console else console

/-! ### Initialisation -/

def lcdClear (console : Console) : Console :=
  let black := colorBlack &&& 0x0f
  let white := colorWhite cfg &&& 0x0f
  let fg := if cfg.whiteOnBlack then white else black
  let bg := if cfg.whiteOnBlack then black else white
  { console with
    lcdColorFg := fg
    lcdColorBg := bg
    frame := cfg.paint (splice console.frame 0
      (List.replicate (lcdLineLength cfg * cfg.vlRow) (colorMask cfg bg)))
    lcdConsoleAddress := cfg.aboveConsole * lcdLineLength cfg
    consoleCol := 0
    consoleRow := 0 }

/-- The row of the first character. -/
def firstRow : Nat :=
  match cfg.logo with
  | .infoBelow bmpLogoHeight => 7 + bmpLogoHeight / videoFontHeight
  | .none | .above _ => 1

def lcdInit (console : Console) : Console :=
  { lcdClear cfg console with
    consoleCol := 0
    consoleRow := firstRow cfg
    lcdIsEnabled := true }

end Model

/-! ### Pixels -/

/-- The place of a pixel's byte in its line. -/
def placeOf (cfg : Config) (x : Nat) : Nat :=
  match cfg.bpp with
  | .monochrome => x / 8
  | .color8 => x

/-- The color of a pixel in its byte. -/
def colorIn (cfg : Config) (x : Nat) (byte : UInt8) : UInt8 :=
  match cfg.bpp with
  | .monochrome => (byte >>> UInt8.ofNat (7 - x % 8)) &&& 1
  | .color8 => byte

def pixel (cfg : Config) (frame : Nat → UInt8) (line x : Nat) : UInt8 :=
  colorIn cfg x (byteAt frame (lcdLineLength cfg) line (placeOf cfg x))

/-- A pixel of a character. -/
def glyphPixel (cfg : Config) (fg bg c : UInt8) (line k : Nat) : UInt8 :=
  if (cfg.videoFontdata (c.toNat * videoFontHeight + line)).toBitVec.getLsbD (7 - k) then fg else bg

def rowsOf (cfg : Config) : Nat := (cfg.vlRow - cfg.aboveConsole) / videoFontHeight
def colsOf (cfg : Config) : Nat := cfg.vlCol / videoFontWidth

/-- The colors that the frame can show. -/
def Colors (cfg : Config) (fg bg : UInt8) : Prop :=
  cfg.bpp = .monochrome → (fg = 0 ∨ fg = 1) ∧ (bg = 0 ∨ bg = 1)

section Pixels
variable {cfg : Config} {fg bg c : UInt8} {frame : Nat → UInt8} {x line : Nat}

theorem place_within (inside : x < 8 * colsOf cfg) : placeOf cfg x < lcdLineLength cfg := by
  have width : 8 * colsOf cfg ≤ cfg.vlCol := Nat.mul_div_le cfg.vlCol 8
  cases found : cfg.bpp with
  | monochrome =>
      simp only [placeOf, lcdLineLength, found, nbits, Bpp.code]
      omega
  | color8 =>
      simp only [placeOf, lcdLineLength, found, nbits, Bpp.code]
      omega

theorem block_within {col : Nat} (inside : col < colsOf cfg) :
    col * nbits cfg.bpp + nbits cfg.bpp ≤ lcdLineLength cfg := by
  have width : 8 * colsOf cfg ≤ cfg.vlCol := Nat.mul_div_le cfg.vlCol 8
  cases found : cfg.bpp with
  | monochrome =>
      simp only [lcdLineLength, found, nbits, Bpp.code]
      omega
  | color8 =>
      simp only [lcdLineLength, found, nbits, Bpp.code]
      omega

theorem high_set (bits : UInt8) : bits &&& 0x80 ≠ 0 ↔ bits.toBitVec.getLsbD 7 = true := by
  have same : bits &&& 0x80 ≠ 0 ↔ bits.toBitVec &&& BitVec.twoPow 8 7 ≠ 0 := by
    rw [ne_eq, ← UInt8.toBitVec_inj]
    rfl
  rw [same, BitVec.and_twoPow]
  cases bits.toBitVec.getLsbD 7 with
  | false => simp
  | true => simp

theorem color_bits {bits : UInt8} {more k : Nat} (less : k < more) (few : more ≤ 8) :
    (colorBits fg bg more bits)[k]? = some (if bits.toBitVec.getLsbD (7 - k) then fg else bg) := by
  induction more generalizing bits k with
  | zero => exact absurd less (Nat.not_lt_zero k)
  | succ more ih =>
      cases k with
      | zero => simp only [colorBits, List.getElem?_cons_zero, high_set, Nat.sub_zero]
      | succ k =>
          have shifted : (bits <<< 1).toBitVec.getLsbD (7 - k) = bits.toBitVec.getLsbD (7 - (k + 1)) := by
            have one : (bits <<< 1).toBitVec = bits.toBitVec <<< 1 := rfl
            rw [one, BitVec.getLsbD_shiftLeft, decide_eq_true (show 7 - k < 8 by omega),
              decide_eq_false (show ¬ 7 - k < 1 by omega), Nat.sub_sub]
            rfl
          rw [colorBits, List.getElem?_cons_succ, ih (Nat.lt_of_succ_lt_succ less) (by omega), shifted]

/-- The bytes of one line of a character. -/
def glyphBytes (cfg : Config) (fg bg c : UInt8) (row : Nat) : List UInt8 :=
  let bits := cfg.videoFontdata (c.toNat * videoFontHeight + row)
  match cfg.bpp with
  | .monochrome => [(colorMask cfg fg &&& bits) ||| (colorMask cfg bg &&& ~~~bits)]
  | .color8 => colorBits fg bg 8 bits

theorem glyph_length (row : Nat) : (glyphBytes cfg fg bg c row).length = nbits cfg.bpp := by
  cases found : cfg.bpp with
  | monochrome => simp [glyphBytes, found, nbits, Bpp.code]
  | color8 => simp [glyphBytes, found, nbits, Bpp.code, colorBits]

/-- A character at a multiple of 8 pixels fills its own bytes. -/
theorem draw_line (row d : Nat) :
    drawLine cfg fg bg 0 row [c] d frame = splice frame d (glyphBytes cfg fg bg c row) := by
  cases found : cfg.bpp with
  | monochrome =>
      simp only [drawLine, found, monochromeLine, glyphBytes]
      generalize colorMask cfg fg &&& cfg.videoFontdata (c.toNat * videoFontHeight + row) |||
          colorMask cfg bg &&& ~~~cfg.videoFontdata (c.toNat * videoFontHeight + row) = sym
      have nothing : shiftedUp sym (8 - 0) = 0 := by
        apply UInt8.toNat_inj.mp
        simp [shiftedUp, Nat.shiftLeft_eq]
      have whole : shiftedDown sym 0 = sym := by
        simp [shiftedDown]
      have none_before : frame d &&& UInt8.ofNat (256 - 1 <<< (8 - 0)) = 0 := UInt8.and_zero
      have all (byte : UInt8) : byte &&& UInt8.ofNat (1 <<< (8 - 0) - 1) = byte := UInt8.and_neg_one
      rw [nothing, whole, none_before, all, UInt8.zero_or, UInt8.zero_or, Function.update_eq_self]
      funext a
      by_cases here : a = d
      · subst here
        rw [Function.update_self]
        exact (splice_inside frame a [sym] 0 Nat.one_pos).symm
      · rw [Function.update_of_ne here]
        exact (splice_outside frame d [sym] a (by rw [List.length_singleton]; omega)).symm
  | color8 => simp only [drawLine, found, color8Line, glyphBytes]

theorem bit_in (byte : UInt8) {j : Nat} (small : j < 8) :
    (byte >>> UInt8.ofNat j) &&& 1 = if byte.toBitVec.getLsbD j then 1 else 0 := by
  have number : ((byte >>> UInt8.ofNat j) &&& 1).toNat = (byte.toBitVec.getLsbD j).toNat := by
    have count : (UInt8.ofNat j).toNat % 8 = j := by
      rw [UInt8.toNat_ofNat']
      omega
    rw [UInt8.toNat_and, UInt8.toNat_shiftRight, count, BitVec.getLsbD, UInt8.toNat_toBitVec, Nat.toNat_testBit,
      Nat.shiftRight_eq_div_pow]
    exact Nat.and_one_is_mod _
  apply UInt8.toNat_inj.mp
  rw [number]
  cases byte.toBitVec.getLsbD j with
  | false => rfl
  | true => rfl

theorem mask_bit (found : cfg.bpp = .monochrome) {color : UInt8} (two : color = 0 ∨ color = 1) {j : Nat}
    (small : j < 8) : (colorMask cfg color).toBitVec.getLsbD j = decide (color = 1) := by
  rw [colorMask, found]
  rcases two with rfl | rfl
  · exact BitVec.getLsbD_zero
  · have all : (BitVec.allOnes 8).getLsbD j = true := by
      rw [BitVec.getLsbD_allOnes, decide_eq_true small]
    exact all

theorem glyph_color (row col : Nat) (colors : Colors cfg fg bg) {k : Nat} (small : k < 8) :
    ((glyphBytes cfg fg bg c row)[placeOf cfg (col * 8 + k) - col * nbits cfg.bpp]?).map
        (colorIn cfg (col * 8 + k)) = some (glyphPixel cfg fg bg c row k) := by
  cases found : cfg.bpp with
  | monochrome =>
      have first : (col * 8 + k) / 8 - col * 1 = 0 := by omega
      have bit : 7 - (col * 8 + k) % 8 = 7 - k := by omega
      have inside : 7 - k < 8 := by omega
      simp only [glyphBytes, placeOf, colorIn, found, nbits, Bpp.code, Nat.shiftLeft_zero, first, bit,
        List.getElem?_cons_zero, Option.map_some, glyphPixel]
      generalize cfg.videoFontdata (c.toNat * videoFontHeight + row) = bits
      obtain ⟨two_fg, two_bg⟩ := colors found
      rw [bit_in _ inside, UInt8.toBitVec_or, UInt8.toBitVec_and, UInt8.toBitVec_and, UInt8.toBitVec_not,
        BitVec.getLsbD_or, BitVec.getLsbD_and, BitVec.getLsbD_and, BitVec.getLsbD_not, mask_bit found two_fg inside,
        mask_bit found two_bg inside, decide_eq_true inside]
      cases bits.toBitVec.getLsbD (7 - k) with
      | false => rcases two_bg with rfl | rfl <;> simp
      | true => rcases two_fg with rfl | rfl <;> simp
  | color8 =>
      have eighth : col * 8 + k - col * 8 = k := Nat.add_sub_cancel_left ..
      simp only [glyphBytes, placeOf, found, nbits, Bpp.code]
      rw [show (1 <<< 3 : Nat) = 8 from rfl, eighth, color_bits small (Nat.le_refl 8), Option.map_some, colorIn,
        found]
      rfl

/-- The bytes of a column of cells. -/
theorem place_column (col x : Nat) :
    (col * nbits cfg.bpp ≤ placeOf cfg x ∧ placeOf cfg x - col * nbits cfg.bpp < nbits cfg.bpp) ↔ x / 8 = col := by
  cases found : cfg.bpp with
  | monochrome =>
      simp only [placeOf, found, nbits, Bpp.code]
      omega
  | color8 =>
      simp only [placeOf, found, nbits, Bpp.code]
      omega

/-- A character drawn into a column of cells is there, and everything else is as it was. -/
theorem draw_pixel {console : Console} (colors : Colors cfg console.lcdColorFg console.lcdColorBg) {col y : Nat}
    (inside : col < colsOf cfg) (x_inside : x < 8 * colsOf cfg) :
    pixel cfg (lcdDrawchars cfg console (col * 8) y [c]).frame line x =
      if (y ≤ line ∧ line < y + videoFontHeight) ∧ x / 8 = col then
        glyphPixel cfg console.lcdColorFg console.lcdColorBg c (line - y) (x % 8)
      else pixel cfg console.frame line x := by
  have off : col * 8 * (1 <<< cfg.bpp.code) % 8 = 0 := by
    rw [Nat.mul_right_comm, Nat.mul_mod_left]
  have dest : col * 8 * (1 <<< cfg.bpp.code) / 8 = col * nbits cfg.bpp := by
    rw [Nat.mul_right_comm, Nat.mul_div_cancel _ (by decide), nbits]
  have start (row : Nat) : y * lcdLineLength cfg + col * nbits cfg.bpp + row * lcdLineLength cfg =
      (y + row) * lcdLineLength cfg + col * nbits cfg.bpp := by
    rw [Nat.add_mul, Nat.add_right_comm]
  have column := @place_column cfg col x
  simp only [pixel, lcdDrawchars, off, dest, start, draw_line]
  rw [byte_at_block glyph_length (block_within inside) (place_within x_inside)]
  by_cases lines : y ≤ line ∧ line < y + videoFontHeight
  · by_cases here : x / 8 = col
    · have cell : col * 8 + x % 8 = x := by omega
      have found := glyph_color (c := c) (line - y) col colors (Nat.mod_lt x (by decide))
      rw [cell] at found
      obtain ⟨byte, entry, color⟩ := Option.map_eq_some_iff.mp found
      rw [if_pos ⟨lines, (column.mpr here).1⟩, if_pos ⟨lines, here⟩, entry, Option.getD_some, color]
    · rw [if_neg (c := _ ∧ x / 8 = col) (fun both => here both.2)]
      by_cases behind : col * nbits cfg.bpp ≤ placeOf cfg x
      · have past : ¬ placeOf cfg x - col * nbits cfg.bpp < nbits cfg.bpp :=
          fun less => here (column.mp ⟨behind, less⟩)
        rw [if_pos ⟨lines, behind⟩, List.getElem?_eq_none (by rw [glyph_length]; exact Nat.not_lt.mp past),
          Option.getD_none]
      · rw [if_neg (fun both => behind both.2)]
  · rw [if_neg (fun both => lines both.1), if_neg (fun both => lines both.1)]

theorem console_rows (some_rows : 0 < rowsOf cfg) : consoleRows cfg = (rowsOf cfg : Int) := by
  have above : cfg.aboveConsole ≤ cfg.vlRow := by
    by_contra below
    rw [rowsOf, Nat.sub_eq_zero_of_le (Nat.not_le.mp below).le, Nat.zero_div] at some_rows
    exact Nat.lt_irrefl 0 some_rows
  rw [consoleRows, rowsOf, ← Nat.cast_sub above]
  rfl

theorem console_cols (cfg : Config) : consoleCols cfg = (colsOf cfg : Int) := rfl

theorem console_size (some_rows : 0 < rowsOf cfg) :
    consoleSize cfg = 16 * rowsOf cfg * lcdLineLength cfg := by
  rw [consoleSize, consoleRowSize, console_rows some_rows, ← Nat.cast_mul, Int.toNat_natCast, videoFontHeight,
    Nat.mul_right_comm]

/-- The lines of the console go up by one row of characters, and the last row is of the background. -/
theorem scroll_byte {console : Console} {place : Nat}
    (address : console.lcdConsoleAddress = cfg.aboveConsole * lcdLineLength cfg) (some_rows : 0 < rowsOf cfg)
    (within : place < lcdLineLength cfg) :
    byteAt (consoleScrollup cfg console).frame (lcdLineLength cfg) line place =
      if cfg.aboveConsole + 16 * (rowsOf cfg - 1) ≤ line ∧ line < cfg.aboveConsole + 16 * rowsOf cfg then
        colorMask cfg console.lcdColorBg
      else if cfg.aboveConsole ≤ line ∧ line < cfg.aboveConsole + 16 * (rowsOf cfg - 1) then
        byteAt console.frame (lcdLineLength cfg) (line + 16) place
      else byteAt console.frame (lcdLineLength cfg) line place := by
  have top := @address_lt _ line place cfg.aboveConsole within
  have last := @address_lt _ line place (cfg.aboveConsole + 16 * (rowsOf cfg - 1)) within
  have bottom := @address_lt _ line place (cfg.aboveConsole + 16 * rowsOf cfg) within
  have size : consoleSize cfg = 16 * (rowsOf cfg - 1) * lcdLineLength cfg + consoleRowSize cfg := by
    rw [console_size some_rows, consoleRowSize, videoFontHeight, ← Nat.add_mul]
    congr 1
    omega
  have row : consoleRowSize cfg = 16 * lcdLineLength cfg := rfl
  have sum : (cfg.aboveConsole + 16 * rowsOf cfg) * lcdLineLength cfg =
      (cfg.aboveConsole + 16 * (rowsOf cfg - 1)) * lcdLineLength cfg + consoleRowSize cfg := by
    rw [row, ← Nat.add_mul]
    congr 1
    omega
  rw [sum] at bottom
  rw [Nat.add_mul cfg.aboveConsole (16 * (rowsOf cfg - 1))] at last bottom
  rw [byteAt, consoleScrollup]
  simp only [splice_replicate, splice_slice, consoleScrollSize, size, address, Nat.add_sub_cancel]
  rw [byteAt, byteAt, Nat.add_mul line 16]
  by_cases in_last : cfg.aboveConsole + 16 * (rowsOf cfg - 1) ≤ line ∧ line < cfg.aboveConsole + 16 * rowsOf cfg
  · rw [if_pos in_last, if_pos (by omega)]
  · rw [if_neg in_last, if_neg (by omega)]
    by_cases inner : cfg.aboveConsole ≤ line ∧ line < cfg.aboveConsole + 16 * (rowsOf cfg - 1)
    · rw [if_pos inner, if_pos (by omega)]
      congr 1
      omega
    · rw [if_neg inner, if_neg (by omega)]

theorem mask_color (colors : Colors cfg fg bg) : colorIn cfg x (colorMask cfg bg) = bg := by
  cases found : cfg.bpp with
  | monochrome =>
      have two := (colors found).2
      rw [colorIn, found]
      simp only
      rw [bit_in _ (by omega), mask_bit found two (by omega)]
      rcases two with rfl | rfl
      · rfl
      · rfl
  | color8 => simp only [colorIn, colorMask, found]

end Pixels

/-! ### The terminal -/

/-- What is in a cell: what the initialisation has left in one, the background, or a character. -/
inductive Cell where
  | initial (row col : Nat)
  | cleared
  | glyph (c : UInt8)

abbrev Screen (cfg : Config) := Terminal (rowsOf cfg) (colsOf cfg) Cell

/-- The line of the frame that is a line of a row of cells. -/
def lineOf (cfg : Config) (row line : Nat) : Nat := row * 16 + cfg.aboveConsole + line

/-- A pixel of a cell. -/
def look (cfg : Config) (start : Console) (cell : Cell) (line k : Nat) : UInt8 :=
  match cell with
  | .initial row col => pixel cfg start.frame (lineOf cfg row line) (col * 8 + k)
  | .cleared => start.lcdColorBg
  | .glyph c => glyphPixel cfg start.lcdColorFg start.lcdColorBg c line k

/-- The frame shows the cells, and the cursor is where the counters say. -/
structure Shows (cfg : Config) (start console : Console) (terminal : Screen cfg) : Prop where
  enabled : console.lcdIsEnabled = true
  address : console.lcdConsoleAddress = cfg.aboveConsole * lcdLineLength cfg
  fg : console.lcdColorFg = start.lcdColorFg
  bg : console.lcdColorBg = start.lcdColorBg
  row : console.consoleRow = terminal.row
  col : console.consoleCol = terminal.col
  cells : ∀ r < rowsOf cfg, ∀ c < colsOf cfg, ∀ line < 16, ∀ k < 8,
    pixel cfg console.frame (lineOf cfg r line) (c * 8 + k) = look cfg start (terminal.cells r c) line k

/-- The terminal behind a character. -/
def typed {cfg : Config} (terminal : Screen cfg) (c : UInt8) : Screen cfg :=
  if c = 13 then terminal.carriageReturn
  else if c = 10 then terminal.newLine .cleared
  else if c = 9 then terminal.tab .cleared
  else if c = 8 then terminal.back (.glyph 32)
  else terminal.put .cleared (.glyph c)

section Steps
variable {cfg : Config} {start console : Console} {terminal : Screen cfg}

theorem ushort_small {n : Nat} (small : n < 2 ^ 16) : ushort (n : Int) = n := by
  rw [ushort]
  omega

theorem last_line {row : Nat} (inside : row < rowsOf cfg) : row * 16 + cfg.aboveConsole + 16 ≤ cfg.vlRow := by
  have lines : 16 * rowsOf cfg ≤ cfg.vlRow - cfg.aboveConsole := Nat.mul_div_le _ 16
  omega

theorem last_column {col : Nat} (inside : col < colsOf cfg) : col * 8 + 8 ≤ cfg.vlCol := by
  have width : 8 * colsOf cfg ≤ cfg.vlCol := Nat.mul_div_le cfg.vlCol 8
  omega

/-- A character where the cursor is goes into that cell. -/
theorem put_here (colors : Colors cfg start.lcdColorFg start.lcdColorBg) (shows : Shows cfg start console terminal)
    (char : UInt8) : Shows cfg start (putcHere cfg console char)
      { terminal with cells := setCell terminal.cells terminal.row terminal.col (.glyph char) } := by
  have lines := last_line terminal.row_lt
  have columns := last_column terminal.col_lt
  have row_bound := cfg.vl_row_lt
  have col_bound := cfg.vl_col_lt
  have x : ushort (console.consoleCol * videoFontWidth) = terminal.col * 8 := by
    rw [shows.col, videoFontWidth, ← Nat.cast_mul]
    exact ushort_small (by omega)
  have y : ushort (console.consoleRow * videoFontHeight) = terminal.row * 16 := by
    rw [shows.row, videoFontHeight, ← Nat.cast_mul]
    exact ushort_small (by omega)
  have down : ushort (((terminal.row * 16 : Nat) : Int) + (cfg.aboveConsole : Int)) =
      terminal.row * 16 + cfg.aboveConsole := by
    rw [← Nat.cast_add]
    exact ushort_small (by omega)
  rw [putcHere, lcdPutcXy, x, y, down]
  refine ⟨shows.enabled, shows.address, shows.fg, shows.bg, shows.row, shows.col, ?_⟩
  intro r r_inside c c_inside line line_small k k_small
  have own : Colors cfg console.lcdColorFg console.lcdColorBg := by
    rw [shows.fg, shows.bg]
    exact colors
  rw [draw_pixel own terminal.col_lt (by omega), shows.fg, shows.bg, shows.cells r r_inside c c_inside line line_small k k_small]
  have column : (c * 8 + k) / 8 = c := by omega
  have bit : (c * 8 + k) % 8 = k := by omega
  simp only [column, bit, setCell, lineOf, videoFontHeight]
  by_cases here : r = terminal.row ∧ c = terminal.col
  · obtain ⟨rfl, rfl⟩ := here
    rw [if_pos (by omega), if_pos ⟨rfl, rfl⟩, Nat.add_sub_cancel_left]
    rfl
  · rw [if_neg (by omega), if_neg here]

theorem scrolled_cells (colors : Colors cfg start.lcdColorFg start.lcdColorBg)
    (shows : Shows cfg start console terminal) {r c line k : Nat} (r_inside : r < rowsOf cfg)
    (c_inside : c < colsOf cfg) (line_small : line < 16) (k_small : k < 8) :
    pixel cfg (consoleScrollup cfg console).frame (lineOf cfg r line) (c * 8 + k) =
      look cfg start (scrolled (rowsOf cfg) .cleared terminal.cells r c) line k := by
  have within := @place_within cfg (c * 8 + k) (by omega)
  rw [pixel, scroll_byte shows.address (by omega) within, scrolled, shows.bg]
  by_cases above : r + 1 < rowsOf cfg
  · have next : lineOf cfg r line + 16 = lineOf cfg (r + 1) line := by
      rw [lineOf, lineOf]
      omega
    have moved : cfg.aboveConsole ≤ lineOf cfg r line ∧
        lineOf cfg r line < cfg.aboveConsole + 16 * (rowsOf cfg - 1) := by
      rw [lineOf]
      omega
    rw [if_neg (by omega), if_pos moved, if_pos above, next]
    exact shows.cells (r + 1) above c c_inside line line_small k k_small
  · have last : cfg.aboveConsole + 16 * (rowsOf cfg - 1) ≤ lineOf cfg r line ∧
        lineOf cfg r line < cfg.aboveConsole + 16 * rowsOf cfg := by
      rw [lineOf]
      omega
    rw [if_pos last, if_neg above]
    exact mask_color colors

theorem new_line_shows (colors : Colors cfg start.lcdColorFg start.lcdColorBg)
    (shows : Shows cfg start console terminal) :
    Shows cfg start (consoleNewline cfg console) (terminal.newLine .cleared) := by
  have some_rows : 0 < rowsOf cfg := Nat.zero_lt_of_lt terminal.row_lt
  rw [consoleNewline, Terminal.newLine, console_rows some_rows]
  simp only [shows.row]
  by_cases below : terminal.row + 1 < rowsOf cfg
  · rw [if_neg (by omega), dif_pos below]
    exact ⟨shows.enabled, shows.address, shows.fg, shows.bg, rfl, rfl, shows.cells⟩
  · rw [if_pos (by omega), dif_neg below]
    refine ⟨shows.enabled, shows.address, shows.fg, shows.bg, ?_, rfl, ?_⟩
    · simp only [consoleScrollup]
      omega
    · intro r r_inside c c_inside line line_small k k_small
      exact scrolled_cells colors shows r_inside c_inside line_small k_small

/-- Only the column is not used for a new line. -/
theorem newline_any_column (col : Int) :
    consoleNewline cfg { console with consoleCol := col } = consoleNewline cfg console := rfl

/-- A column further on, or a new line. -/
theorem advance_shows (colors : Colors cfg start.lcdColorFg start.lcdColorBg)
    (shows : Shows cfg start console terminal) {col : Int} {next : Nat} (same : col = next) :
    Shows cfg start
      (if col ≥ consoleCols cfg then consoleNewline cfg { console with consoleCol := col }
        else { console with consoleCol := col })
      (if right : next < colsOf cfg then { terminal with col := next, col_lt := right }
        else terminal.newLine .cleared) := by
  rw [console_cols, same]
  by_cases right : next < colsOf cfg
  · rw [if_neg (by omega), dif_pos right]
    exact ⟨shows.enabled, shows.address, shows.fg, shows.bg, shows.row, rfl, shows.cells⟩
  · rw [if_pos (by omega), dif_neg right, newline_any_column]
    exact new_line_shows colors shows

/-- A column without the bit 8 goes on to the next multiple of 8. -/
theorem tabbed_next {col : Nat} (small : col < 2 ^ 16) (clear : col % 16 < 8) :
    tabbed (col : Int) = ((8 * (col / 8 + 1) : Nat) : Int) := by
  have high : (col ||| 8) / 2 ^ 3 = col / 8 ||| 1 := Nat.or_div_two_pow
  have odd : (col / 8 ||| 1) % 2 ^ 1 = (col / 8) % 2 ^ 1 ||| 1 % 2 ^ 1 := Nat.or_mod_two_pow
  have half : (col / 8 ||| 1) / 2 ^ 1 = (col / 8) / 2 ^ 1 ||| 1 / 2 ^ 1 := Nat.or_div_two_pow
  have even : col / 8 % 2 ^ 1 = 0 := by omega
  rw [even, show 0 ||| 1 % 2 ^ 1 = 1 from rfl] at odd
  rw [show 1 / 2 ^ 1 = 0 from rfl, Nat.or_zero] at half
  have below : col ||| 8 < 2 ^ 16 := Nat.or_lt_two_pow small (by decide)
  have next : col / 8 ||| 1 = col / 8 + 1 := by omega
  have number : ((BitVec.ofInt 32 col ||| 8#32) &&& ~~~7#32).toNat = 8 * (col / 8 + 1) := by
    rw [BitVec.ofInt_natCast, BitVec.toNat_and, BitVec.toNat_or, BitVec.toNat_ofNat, Nat.mod_eq_of_lt (by omega)]
    have mask := @round_down (col ||| 8) 3 (by decide) (by omega)
    rw [high, next] at mask
    exact mask.trans (Nat.mul_comm _ _)
  rw [tabbed, BitVec.toInt_eq_toNat_of_lt (by omega), number]

/-- The steps at which the console is a terminal: a tab does not stand in the second half of 16 columns, and
no backspace in the first cell of all. -/
def Regular (console : Console) (c : UInt8) : Prop :=
  (c = 9 → console.consoleCol % 16 < 8) ∧ (c = 8 → ¬ (console.consoleRow = 0 ∧ console.consoleCol = 0))

instance (console : Console) (c : UInt8) : Decidable (Regular console c) := inferInstanceAs (Decidable (_ ∧ _))

theorem back_shows (colors : Colors cfg start.lcdColorFg start.lcdColorBg) (shows : Shows cfg start console terminal)
    (not_first : ¬ (console.consoleRow = 0 ∧ console.consoleCol = 0)) :
    Shows cfg start (consoleBack cfg console) (terminal.back (.glyph 32)) := by
  have row := shows.row
  have col := shows.col
  rw [consoleBack, Terminal.back]
  by_cases inside : 0 < terminal.col
  · rw [if_pos inside]
    have moved : Shows cfg start { console with consoleCol := console.consoleCol - 1 }
        { terminal with
          col := terminal.col - 1, col_lt := Nat.lt_of_le_of_lt (Nat.sub_le _ _) terminal.col_lt } :=
      ⟨shows.enabled, shows.address, shows.fg, shows.bg, row, by simp only; omega, shows.cells⟩
    simp only
    rw [if_neg (by omega)]
    exact put_here colors moved 32
  · have above : 0 < terminal.row := by omega
    rw [if_neg inside, if_pos above]
    have positive : 0 < colsOf cfg := Nat.zero_lt_of_lt terminal.col_lt
    have moved : Shows cfg start
        { console with
          consoleCol := consoleCols cfg - 1
          consoleRow := console.consoleRow - 1 }
        { terminal with
          row := terminal.row - 1, row_lt := Nat.lt_of_le_of_lt (Nat.sub_le _ _) terminal.row_lt
          col := colsOf cfg - 1, col_lt := Nat.sub_lt positive Nat.one_pos } := by
      refine ⟨shows.enabled, shows.address, shows.fg, shows.bg, by simp only; omega, ?_, shows.cells⟩
      rw [console_cols]
      simp only
      omega
    simp only
    rw [if_pos (by omega), if_neg (by omega)]
    exact put_here colors moved 32

/-- One character. -/
theorem putc_shows (colors : Colors cfg start.lcdColorFg start.lcdColorBg) (shows : Shows cfg start console terminal)
    {c : UInt8} (regular : Regular console c) :
    Shows cfg start (lcdPutc cfg console c) (typed terminal c) := by
  rw [lcdPutc, typed, if_neg (by simp [shows.enabled])]
  by_cases cr : c = 13
  · rw [if_pos cr, if_pos cr]
    exact ⟨shows.enabled, shows.address, shows.fg, shows.bg, shows.row, rfl, shows.cells⟩
  rw [if_neg cr, if_neg cr]
  by_cases lf : c = 10
  · rw [if_pos lf, if_pos lf]
    exact new_line_shows colors shows
  rw [if_neg lf, if_neg lf]
  by_cases tab : c = 9
  · rw [if_pos tab, if_pos tab, shows.col]
    have columns := last_column terminal.col_lt
    have bound := cfg.vl_col_lt
    have clear := regular.1 tab
    rw [shows.col] at clear
    exact advance_shows colors shows (tabbed_next (by omega) (by omega))
  rw [if_neg tab, if_neg tab]
  by_cases bs : c = 8
  · rw [if_pos bs, if_pos bs]
    exact back_shows colors shows (regular.2 bs)
  rw [if_neg bs, if_neg bs]
  have written := put_here colors shows c
  exact advance_shows colors written (by rw [written.col]; rfl)

end Steps

/-! ### Runs -/

/-- The terminal behind the initialisation. -/
def firstScreen (cfg : Config) (some_cols : 0 < colsOf cfg) (room : firstRow cfg < rowsOf cfg) : Screen cfg :=
  ⟨.initial, firstRow cfg, 0, room, some_cols⟩

theorem init_colors (cfg : Config) (console : Console) :
    Colors cfg (lcdInit cfg console).lcdColorFg (lcdInit cfg console).lcdColorBg := by
  intro found
  simp only [lcdInit, lcdClear, colorWhite, colorBlack, found]
  cases cfg.whiteOnBlack with
  | false => exact ⟨Or.inl rfl, Or.inr rfl⟩
  | true => exact ⟨Or.inr rfl, Or.inl rfl⟩

theorem init_shows (cfg : Config) (console : Console) (some_cols : 0 < colsOf cfg)
    (room : firstRow cfg < rowsOf cfg) :
    Shows cfg (lcdInit cfg console) (lcdInit cfg console) (firstScreen cfg some_cols room) :=
  ⟨rfl, rfl, rfl, rfl, rfl, rfl, fun _ _ _ _ _ _ _ _ => rfl⟩

theorem regular_run {cfg : Config} {start before after : Console}
    (colors : Colors cfg start.lcdColorFg start.lcdColorBg) {sent : List UInt8}
    (run : Run (Guarded Regular (stepOf (lcdPutc cfg))) before sent after) (terminal : Screen cfg)
    (shows : Shows cfg start before terminal) : Shows cfg start after (sent.foldl typed terminal) := by
  induction run generalizing terminal with
  | refl => exact shows
  | next step _ ih =>
      obtain ⟨regular, moved⟩ := step
      subst moved
      exact ih _ (putc_shows colors shows regular)

/-- The cursor is in a cell. -/
theorem cursor_inside {cfg : Config} {start console : Console} {terminal : Screen cfg}
    (shows : Shows cfg start console terminal) :
    (0 ≤ console.consoleRow ∧ console.consoleRow < consoleRows cfg) ∧
      0 ≤ console.consoleCol ∧ console.consoleCol < consoleCols cfg := by
  have row := terminal.row_lt
  have col := terminal.col_lt
  rw [shows.row, shows.col, console_cols, console_rows (Nat.zero_lt_of_lt row)]
  omega

/-- Behind every regular run the frame shows the cells of a terminal that has been sent the same, and the
cursor is in the same cell. -/
theorem lcd_console_run (cfg : Config) (console : Console) (some_cols : 0 < colsOf cfg)
    (room : firstRow cfg < rowsOf cfg) {sent : List UInt8} {after : Console}
    (run : Run (Guarded Regular (stepOf (lcdPutc cfg))) (lcdInit cfg console) sent after) :
    Shows cfg (lcdInit cfg console) after (sent.foldl typed (firstScreen cfg some_cols room)) ∧
      (0 ≤ after.consoleRow ∧ after.consoleRow < consoleRows cfg) ∧
      0 ≤ after.consoleCol ∧ after.consoleCol < consoleCols cfg := by
  have shows := regular_run (init_colors cfg console) run _ (init_shows cfg console some_cols room)
  exact ⟨shows, cursor_inside shows⟩

def panel : Config :=
  { bpp := .color8
    logo := .none
    whiteOnBlack := true
    vlCol := 640
    vlRow := 480
    vl_col_lt := by decide
    vl_row_lt := by decide
    videoFontdata := fun place => if place / 16 = 65 then 0x18 else 0
    paint := fun frame => frame }

/-- A panel of one row of characters. -/
def rowPanel : Config := { panel with vlRow := 16, vl_row_lt := by decide }

def switchedOn : Console := ⟨fun _ => 0, 0, 0, 0, 0, 0, false, []⟩

/-- A tab, a line end and a backspace that goes back over it. -/
theorem tab_and_back_shown :
    Shows panel (lcdInit panel switchedOn) ([65, 9, 10, 8].foldl (lcdPutc panel) (lcdInit panel switchedOn))
      ([65, 9, 10, 8].foldl typed (firstScreen panel (by decide) (by decide))) :=
  (lcd_console_run panel switchedOn (by decide) (by decide)
    (run_passes Regular (lcdPutc panel) (by decide +kernel))).1

/-- In column 8 a tab leaves the cursor there, before the first cell there is another one, and on a panel of
one row the cursor is below it. -/
theorem tab_stays :
    ¬ Shows panel (lcdInit panel switchedOn)
        ([65, 65, 65, 65, 65, 65, 65, 65, 9].foldl (lcdPutc panel) (lcdInit panel switchedOn))
        ([65, 65, 65, 65, 65, 65, 65, 65, 9].foldl typed (firstScreen panel (by decide) (by decide))) ∧
      ¬ Shows panel (lcdInit panel switchedOn)
        ([8, 13, 8].foldl (lcdPutc panel) (lcdInit panel switchedOn))
        ([8, 13, 8].foldl typed (firstScreen panel (by decide) (by decide))) ∧
      ¬ (lcdPutc rowPanel (lcdInit rowPanel switchedOn) 65).consoleRow < consoleRows rowPanel := by
  refine ⟨fun shows => ?_, fun shows => ?_, by decide +kernel⟩
  · exact absurd shows.col (by decide +kernel)
  · exact absurd shows.col (by decide +kernel)

end UBoot.Common.LcdConsole
