import UBoot.Library.Bits
import UBoot.Library.ForLoop
import UBoot.Library.Raster

/-!
The bitmaps of common/lcd.c: what lcd_display_bitmap leaves on the panel. Addresses count from bmp_image and
from lcd_base, and pointers are whole numbers: a byte is at the value modulo 2^32. What is drawn to is apart
from the image.
-/

namespace UBoot.Common.LcdBitmap

open Library.Bits Library.ForLoop Library.Raster

/-! ### The image -/

def le16 (image : Nat → UInt8) (place : Nat) : Nat := (image place).toNat + (image (place + 1)).toNat * 2 ^ 8
def le32 (image : Nat → UInt8) (place : Nat) : Nat := le16 image place + le16 image (place + 2) * 2 ^ 16

section Header
variable (image : Nat → UInt8)

def dataOffset : Nat := le32 image 10
def width : Nat := le32 image 18
def height : Nat := le32 image 22
def bitCount : Nat := le16 image 28

structure ColorTableEntry where
  blue : UInt8
  green : UInt8
  red : UInt8

/-- The table is behind the 54 bytes of the header. -/
def colorTable (i : Nat) : ColorTableEntry :=
  ⟨image (54 + 4 * i), image (54 + 4 * i + 1), image (54 + 4 * i + 2)⟩

end Header

/-! ### The panel -/

inductive Board where
  | pxa250
  | mpc823
deriving DecidableEq

/-- The byte for a pixel. -/
def Board.shown : Board → UInt8 → UInt8
  | .pxa250, pixel => pixel
  | .mpc823, pixel => 255 - pixel

/-- The entry of the color map for a color of the table: on the MPC823 they go down from the last. -/
def Board.entry : Board → Nat → Nat
  | .pxa250, i => i
  | .mpc823, i => 255 - i

structure Panel where
  vlCol : Nat
  vlRow : Nat
  vlBpix : Nat
  vl_col_lt : vlCol < 2 ^ 16
  vl_row_lt : vlRow < 2 ^ 16

def nbits (bitCode : Nat) : Nat := 1 <<< bitCode
def lcdLineLength (panel : Panel) : Nat := panel.vlCol * nbits panel.vlBpix / 8

structure Display where
  frame : Nat → UInt8
  cmap : Nat → UInt16

def ulong (n : Int) : Nat := (n % 2 ^ 32).toNat

/-! ### Drawing -/

def colreg (invertColors : Bool) (cte : ColorTableEntry) : UInt16 :=
  let red : UInt16 := cte.red.toUInt16 <<< 8
  let green : UInt16 := cte.green.toUInt16 <<< 3
  let blue : UInt16 := cte.blue.toUInt16 >>> 3
  let color := red &&& 0xf800 ||| green &&& 0x07e0 ||| blue &&& 0x001f
  if invertColors then 0xffff - color else color

/-- The color map for so many colors. -/
def setColorMap (board : Board) (invertColors : Bool) (image : Nat → UInt8) (colors : Nat) (cmap : Nat → UInt16) :
    Nat → UInt16 :=
  (List.range colors).foldl
    (fun cmap i => Function.update cmap (board.entry i) (colreg invertColors (colorTable image i))) cmap

/-- A width in bytes with its padding, as a ushort. -/
def paddedLine (width : Nat) : Nat :=
  (if width &&& 3 ≠ 0 then (width &&& (2 ^ 32 - 4)) + 4 else width) % 2 ^ 16

/-- `if ((pos + size) > limit) size = limit - pos`, in unsigned longs. -/
def clipped (pos : Int) (size limit : Nat) : Nat :=
  if ulong (pos + size) > limit then ulong (limit - pos) else size

structure Pen where
  frame : Nat → UInt8
  bmap : Int
  fb : Int

section Model
variable (board : Board) (image : Nat → UInt8)

def drawPixel (pen : Pen) : Pen :=
  { frame := Function.update pen.frame (ulong pen.fb) (board.shown (image (ulong pen.bmap)))
    bmap := pen.bmap + 1
    fb := pen.fb + 1 }

/-- `for (j = 0; j < width; j++)`, with a ushort. -/
def drawLine (width fuel : Nat) (pen : Pen) : Part Pen Empty :=
  forLoop width (fun j => (j + 1) % 2 ^ 16) (fun _ pen => some (.inl (drawPixel board image pen))) fuel 0 pen

def nextLine (width padded lineLength : Nat) (pen : Pen) : Pen :=
  { pen with
    bmap := pen.bmap + ((width : Int) - padded)
    fb := pen.fb - ((width : Int) + lineLength) }

/-- `for (i = 0; i < height; ++i)`, with a ushort. -/
def drawLines (width height padded lineLength fuel : Nat) (pen : Pen) : Part Pen Empty :=
  forLoop height (fun i => (i + 1) % 2 ^ 16)
    (fun _ pen => andThen (drawLine board image width fuel pen) fun pen =>
      some (.inl (nextLine width padded lineLength pen))) fuel 0 pen

/-- An error is the message of a return with 1. -/
def lcdDisplayBitmap (invertColors : Bool) (panel : Panel) (bmpImage : Nat) (x y : Int32) (fuel : Nat)
    (display : Display) : Option (Except String Display) :=
  if ¬ (image 0 = 66 ∧ image 1 = 77) then
    let address := String.ofList (Nat.toDigits 16 bmpImage)
    some (.error s!"Error: no valid bmp image at {address}\n")
  else
    let bpix := nbits panel.vlBpix
    if bpix ≠ 1 ∧ bpix ≠ 8 then
      some (.error s!"Error: {bpix} bit/pixel mode not supported by U-Boot\n")
    else if bpix ≠ bitCount image then
      let bits := bitCount image
      some (.error s!"Error: {bpix} bit/pixel mode, but BMP has {bits} bit/pixel\n")
    else
      let cmap :=
        if bpix = 8 then setColorMap board invertColors image (1 <<< bitCount image) display.cmap
        else display.cmap
      let padded := paddedLine (width image)
      let width := clipped x.toInt (width image) panel.vlCol
      let height := clipped y.toInt (height image) panel.vlRow
      let pen : Pen :=
        { frame := display.frame
          bmap := dataOffset image
          fb := (y.toInt + height - 1) * lcdLineLength panel + x.toInt }
      (drawLines board image width height padded (lcdLineLength panel) fuel pen).map fun result =>
        result.elim (fun pen => .ok ⟨pen.frame, cmap⟩) Empty.elim

end Model

/-! ### What is right -/

/-- The bytes of a line of the image, with its padding. -/
def lineBytes (image : Nat → UInt8) : Nat := (width image + 3) / 4 * 4

/-- An image of 8 bits per pixel in a memory of 2^32 bytes: the lines are behind the header. -/
structure Bmp8 (image : Nat → UInt8) : Prop where
  signature_b : image 0 = 66
  signature_m : image 1 = 77
  bit_count : bitCount image = 8
  behind_header : 54 ≤ dataOffset image
  inside : dataOffset image + height image * lineBytes image ≤ 2 ^ 32

/-- A pixel, from the left and from the top: the last line is the first in memory. -/
def pixel (image : Nat → UInt8) (j i : Nat) : UInt8 :=
  image (dataOffset image + (height image - 1 - i) * lineBytes image + j)

/-- An image of the same size with other lines. -/
def withLines (image data : Nat → UInt8) : Nat → UInt8 :=
  fun place =>
    if dataOffset image ≤ place ∧ place < dataOffset image + height image * lineBytes image then data place
    else image place

/-- The address of a point of the image that is on the panel. -/
def Covered (panel : Panel) (image : Nat → UInt8) (x y : Int) (address : Nat) : Prop :=
  ∃ j < width image, ∃ i < height image, ∃ col < panel.vlCol, ∃ line < panel.vlRow,
    (col : Int) = x + j ∧ (line : Int) = y + i ∧ address = line * panel.vlCol + col

/-- The image is on the panel as far as it goes, in its colors, and nothing else has been changed. -/
structure Draws (board : Board) (invertColors : Bool) (panel : Panel) (image : Nat → UInt8) (x y : Int)
    (before after : Display) : Prop where
  points : ∀ j < width image, ∀ i < height image, ∀ col < panel.vlCol, ∀ line < panel.vlRow,
    (col : Int) = x + j → (line : Int) = y + i →
      byteAt after.frame panel.vlCol line col = board.shown (pixel image j i)
  others : ∀ address < 2 ^ 32, ¬ Covered panel image x y address → after.frame address = before.frame address
  colors : ∀ color : UInt8,
    after.cmap (board.shown color).toNat = colreg invertColors (colorTable image color.toNat)

/-- The sum `pos + size` and the place of the limit behind it are right as unsigned longs. -/
def Within (pos : Int) (size limit : Nat) : Prop := 0 ≤ pos ∧ pos ≤ limit ∧ pos + size < 2 ^ 32

/-- A ushort comes to the number of lines. -/
def Ends (pos : Int) (size limit : Nat) : Prop :=
  Within pos size limit ∨
    pos < 0 ∧ ((limit : Int) - pos < 2 ^ 16 ∨ -pos ≤ size ∧ (size : Int) ≤ limit - pos ∧ size < 2 ^ 16)

/-- The images and positions that come out right. -/
def Placed (panel : Panel) (image : Nat → UInt8) (x y : Int) : Prop :=
  -- no line is drawn
  (Within y (height image) panel.vlRow ∧ (height image = 0 ∨ y = panel.vlRow)) ∨
  -- the lines are empty
  (Within x (width image) panel.vlCol ∧ (width image = 0 ∨ x = panel.vlCol) ∧
    Ends y (height image) panel.vlRow) ∨
  -- it begins on the panel and ends above its lower edge, and the second line is behind the first
  (Within x (width image) panel.vlCol ∧ Within y (height image) panel.vlRow ∧
    y + height image ≤ panel.vlRow ∧
    (height image ≤ 1 ∨
      2 * min (width image) (panel.vlCol - x).toNat = lineBytes image + lineBytes image % 2 ^ 16))

/-! ### What is written -/

section Writes
variable (board : Board) (image : Nat → UInt8) (width padded lineLength : Nat)

/-- The bytes of a line, from where the pen is. -/
def lineWrites (bmap fb : Int) : List (Nat × UInt8) :=
  (List.range width).map fun (j : Nat) => (ulong (fb + j), board.shown (image (ulong (bmap + j))))

/-- The bytes of so many lines. -/
def writes (height : Nat) (bmap fb : Int) : List (Nat × UInt8) :=
  (List.range height).flatMap fun (i : Nat) =>
    lineWrites board image width (bmap + (i : Int) * (2 * width - padded)) (fb - (i : Int) * lineLength)

theorem line_drawn (pen : Pen) :
    (drawPixel board image)^[width] pen =
      { frame := stored pen.frame (lineWrites board image width pen.bmap pen.fb)
        bmap := pen.bmap + width
        fb := pen.fb + width } := by
  induction width with
  | zero => simp [lineWrites, stored]
  | succ width ih =>
      have last : lineWrites board image (width + 1) pen.bmap pen.fb =
          lineWrites board image width pen.bmap pen.fb ++
            [(ulong (pen.fb + width), board.shown (image (ulong (pen.bmap + width))))] := by
        rw [lineWrites, List.range_succ, List.map_append]
        rfl
      rw [Function.iterate_succ_apply', ih, drawPixel, last, stored_append, Pen.mk.injEq]
      refine ⟨rfl, ?_, ?_⟩
      · push_cast
        ring
      · push_cast
        ring

/-- One line, and back to where the next one begins. -/
def lineStep (pen : Pen) : Pen := nextLine width padded lineLength ((drawPixel board image)^[width] pen)

theorem lines_drawn (height : Nat) (pen : Pen) :
    (lineStep board image width padded lineLength)^[height] pen =
      { frame := stored pen.frame (writes board image width padded lineLength height pen.bmap pen.fb)
        bmap := pen.bmap + (height : Int) * (2 * width - padded)
        fb := pen.fb - (height : Int) * lineLength } := by
  induction height with
  | zero => simp [writes, stored]
  | succ height ih =>
      have last : writes board image width padded lineLength (height + 1) pen.bmap pen.fb =
          writes board image width padded lineLength height pen.bmap pen.fb ++
            lineWrites board image width (pen.bmap + (height : Int) * (2 * width - padded))
              (pen.fb - (height : Int) * lineLength) := by
        rw [writes, List.range_succ, List.flatMap_append, List.flatMap_singleton]
        rfl
      rw [Function.iterate_succ_apply', ih, lineStep, line_drawn, nextLine, last, stored_append, Pen.mk.injEq]
      refine ⟨rfl, ?_, ?_⟩
      · push_cast
        ring
      · push_cast
        ring

theorem mem_writes {height : Nat} {bmap fb : Int} {write : Nat × UInt8} :
    write ∈ writes board image width padded lineLength height bmap fb ↔
      ∃ i : Nat, i < height ∧ ∃ j : Nat, j < width ∧ write =
        (ulong (fb - (i : Int) * lineLength + (j : Int)),
          board.shown (image (ulong (bmap + (i : Int) * (2 * width - padded) + (j : Int))))) := by
  simp only [writes, lineWrites, List.mem_flatMap, List.mem_map, List.mem_range]
  constructor
  · rintro ⟨i, below, j, within, rfl⟩
    exact ⟨i, below, j, within, rfl⟩
  · rintro ⟨i, below, j, within, rfl⟩
    exact ⟨i, below, j, within, rfl⟩

end Writes

/-! ### The loops -/

section Loops
variable {board : Board} {image : Nat → UInt8} {width height padded lineLength fuel : Nat}

theorem line_loop (small : width < 2 ^ 16) (enough : width < fuel) (pen : Pen) :
    drawLine board image width fuel pen = some (.inl ((drawPixel board image)^[width] pen)) :=
  for_counted small (fun _ _ => rfl) (by omega) (Nat.zero_le _)

/-- A line that a ushort does not come to the end of. -/
theorem line_endless (wide : 2 ^ 16 ≤ width) (pen : Pen) : drawLine board image width fuel pen = none :=
  for_endless wide (fun _ _ stop => stop.elim) (by decide)

theorem lines_loop (small : width < 2 ^ 16 ∨ height = 0) (few : height < 2 ^ 16) (wide : width < fuel)
    (enough : height < fuel) (pen : Pen) :
    drawLines board image width height padded lineLength fuel pen =
      some (.inl ((lineStep board image width padded lineLength)^[height] pen)) := by
  rcases small with small | rfl
  · apply for_counted few _ (by omega) (Nat.zero_le _)
    intro i pen
    rw [line_loop small wide]
    rfl
  · obtain ⟨fuel, rfl⟩ := Nat.exists_eq_add_of_lt enough
    rfl

theorem lines_endless (long : 2 ^ 16 ≤ height ∨ 0 < height ∧ 2 ^ 16 ≤ width) (pen : Pen) :
    drawLines board image width height padded lineLength fuel pen = none := by
  rcases long with many | ⟨some_line, wide⟩
  · exact for_endless many (fun _ _ stop => stop.elim) (by decide)
  · apply for_stuck some_line
    rw [line_endless wide]
    rfl

/-- With any fuel, the loops that end have no other result. -/
theorem lines_result (few : height < 2 ^ 16) (pen : Pen) :
    drawLines board image width height padded lineLength fuel pen = none ∨
      drawLines board image width height padded lineLength fuel pen =
        some (.inl ((lineStep board image width padded lineLength)^[height] pen)) := by
  apply for_result few _ (Nat.zero_le _)
  intro i pen
  by_cases small : width < 2 ^ 16
  · have line : drawLine board image width fuel pen = none ∨
        drawLine board image width fuel pen = some (.inl ((drawPixel board image)^[width] pen)) :=
      for_result small (fun _ _ => Or.inr rfl) (Nat.zero_le _)
    rcases line with stuck | ended
    · rw [stuck]
      exact Or.inl rfl
    · rw [ended]
      exact Or.inr rfl
  · rw [line_endless (Nat.not_lt.mp small)]
    exact Or.inl rfl

end Loops

/-! ### The result -/

/-- What is left of the image on the panel. -/
def shownWidth (panel : Panel) (image : Nat → UInt8) (x : Int) : Nat := clipped x (width image) panel.vlCol
def shownHeight (panel : Panel) (image : Nat → UInt8) (y : Int) : Nat := clipped y (height image) panel.vlRow

/-- All bytes of an image. -/
def imageWrites (board : Board) (panel : Panel) (image : Nat → UInt8) (x y : Int) : List (Nat × UInt8) :=
  writes board image (shownWidth panel image x) (paddedLine (width image)) panel.vlCol (shownHeight panel image y)
    (dataOffset image) ((y + shownHeight panel image y - 1) * panel.vlCol + x)

section Result
variable {board : Board} {panel : Panel} {image : Nat → UInt8} {invertColors : Bool} {bmpImage : Nat} {x y : Int32}
  {before : Display}

/-- The loops end: a ushort comes to the number of lines, and to the width unless there is no line. -/
def LoopsEnd (panel : Panel) (image : Nat → UInt8) (x y : Int) : Prop :=
  shownHeight panel image y < 2 ^ 16 ∧ (shownWidth panel image x < 2 ^ 16 ∨ shownHeight panel image y = 0)

theorem line_length (color8 : nbits panel.vlBpix = 8) : lcdLineLength panel = panel.vlCol := by
  rw [lcdLineLength, color8, Nat.mul_div_cancel _ (by decide)]

theorem display_eq (color8 : nbits panel.vlBpix = 8) (bmp : Bmp8 image) (fuel : Nat) :
    lcdDisplayBitmap board image invertColors panel bmpImage x y fuel before =
      (drawLines board image (shownWidth panel image x.toInt) (shownHeight panel image y.toInt)
          (paddedLine (width image)) panel.vlCol fuel
          { frame := before.frame
            bmap := dataOffset image
            fb := (y.toInt + shownHeight panel image y.toInt - 1) * panel.vlCol + x.toInt }).map fun result =>
        result.elim
          (fun pen => .ok ⟨pen.frame, setColorMap board invertColors image (1 <<< 8) before.cmap⟩) Empty.elim := by
  have signature : ¬ ¬ (image 0 = 66 ∧ image 1 = 77) := not_not_intro ⟨bmp.signature_b, bmp.signature_m⟩
  rw [lcdDisplayBitmap, if_neg signature]
  simp only
  rw [color8, bmp.bit_count, line_length color8, if_neg (by decide), if_neg (by decide), if_pos rfl]
  rfl

theorem display_some (color8 : nbits panel.vlBpix = 8) (bmp : Bmp8 image)
    (ends : LoopsEnd panel image x.toInt y.toInt) {fuel : Nat}
    (enough : shownWidth panel image x.toInt + shownHeight panel image y.toInt < fuel) :
    lcdDisplayBitmap board image invertColors panel bmpImage x y fuel before =
      some (.ok
        { frame := stored before.frame (imageWrites board panel image x.toInt y.toInt)
          cmap := setColorMap board invertColors image (1 <<< 8) before.cmap }) := by
  rw [display_eq color8 bmp, lines_loop ends.2 ends.1 (by omega) (by omega), lines_drawn]
  rfl

theorem display_none (color8 : nbits panel.vlBpix = 8) (bmp : Bmp8 image)
    (endless : ¬ LoopsEnd panel image x.toInt y.toInt) (fuel : Nat) :
    lcdDisplayBitmap board image invertColors panel bmpImage x y fuel before = none := by
  have long : 2 ^ 16 ≤ shownHeight panel image y.toInt ∨
      0 < shownHeight panel image y.toInt ∧ 2 ^ 16 ≤ shownWidth panel image x.toInt := by
    rw [LoopsEnd] at endless
    omega
  rw [display_eq color8 bmp, lines_endless long]
  rfl

/-! ### The colors -/

theorem color_map_at (colors : Nat) (cmap : Nat → UInt16) (few : colors ≤ 256) {i : Nat} (inside : i < 256) :
    setColorMap board invertColors image colors cmap (board.entry i) =
      if i < colors then colreg invertColors (colorTable image i) else cmap (board.entry i) := by
  induction colors with
  | zero => rfl
  | succ colors ih =>
      have turn : setColorMap board invertColors image (colors + 1) cmap =
          Function.update (setColorMap board invertColors image colors cmap) (board.entry colors)
            (colreg invertColors (colorTable image colors)) := by
        rw [setColorMap, List.range_succ, List.foldl_append]
        rfl
      rw [turn]
      by_cases last : i = colors
      · subst last
        rw [Function.update_self, if_pos (Nat.lt_succ_self i)]
      · have apart : board.entry i ≠ board.entry colors := by
          cases board with
          | pxa250 => exact last
          | mpc823 =>
              simp only [Board.entry]
              omega
        rw [Function.update_of_ne apart, ih (by omega)]
        by_cases below : i < colors
        · rw [if_pos below, if_pos (by omega)]
        · rw [if_neg below, if_neg (by omega)]

theorem shown_entry (color : UInt8) : (board.shown color).toNat = board.entry color.toNat := by
  cases board with
  | pxa250 => rfl
  | mpc823 =>
      have below : color.toNat ≤ 255 := Nat.le_of_lt_succ color.toNat_lt
      rw [Board.shown, Board.entry, UInt8.toNat_sub_of_le 255 color (UInt8.le_iff_toNat_le.mpr below)]
      rfl

theorem shown_injective {left right : UInt8} (same : board.shown left = board.shown right) : left = right := by
  cases board with
  | pxa250 => exact same
  | mpc823 => exact (UInt8.sub_right_inj 255).mp same

end Result

/-! ### Images with the same header -/

section Data
variable {image : Nat → UInt8}

theorem header_kept (bmp : Bmp8 image) (data : Nat → UInt8) {place : Nat} (header : place < 54) :
    withLines image data place = image place := by
  have behind := bmp.behind_header
  exact if_neg (by omega)

theorem le32_kept (bmp : Bmp8 image) (data : Nat → UInt8) {place : Nat} (header : place + 3 < 54) :
    le32 (withLines image data) place = le32 image place := by
  rw [le32, le16, le16, header_kept bmp data (by omega), header_kept bmp data (by omega),
    header_kept bmp data (by omega), header_kept bmp data (by omega)]
  rfl

theorem data_offset_kept (bmp : Bmp8 image) (data : Nat → UInt8) :
    dataOffset (withLines image data) = dataOffset image := le32_kept bmp data (by decide)

theorem with_own_lines (image : Nat → UInt8) : withLines image image = image := by
  funext place
  rw [withLines, ite_self]

theorem width_kept (bmp : Bmp8 image) (data : Nat → UInt8) : width (withLines image data) = width image :=
  le32_kept bmp data (by decide)

theorem height_kept (bmp : Bmp8 image) (data : Nat → UInt8) : height (withLines image data) = height image :=
  le32_kept bmp data (by decide)

theorem line_bytes_kept (bmp : Bmp8 image) (data : Nat → UInt8) :
    lineBytes (withLines image data) = lineBytes image := by
  rw [lineBytes, width_kept bmp data, lineBytes]

theorem with_lines_bmp (bmp : Bmp8 image) (data : Nat → UInt8) : Bmp8 (withLines image data) where
  signature_b := (header_kept bmp data (by decide)).trans bmp.signature_b
  signature_m := (header_kept bmp data (by decide)).trans bmp.signature_m
  bit_count := by
    rw [← bmp.bit_count, bitCount, bitCount, le16, header_kept bmp data (by decide), header_kept bmp data (by decide)]
    rfl
  behind_header := by
    rw [data_offset_kept bmp]
    exact bmp.behind_header
  inside := by
    rw [data_offset_kept bmp, height_kept bmp, line_bytes_kept bmp]
    exact bmp.inside

theorem another_byte (byte : UInt8) : ∃ other, other ≠ byte := by
  by_cases zero : byte = 0
  · exact ⟨1, by rw [zero]; decide⟩
  · exact ⟨0, Ne.symm zero⟩

/-- A byte of the lines can differ from a byte anywhere else. -/
theorem lines_differ {place other : Nat} (inside : dataOffset image ≤ place)
    (below : place < dataOffset image + height image * lineBytes image) (apart : other ≠ place) :
    ∃ data, withLines image data place ≠ withLines image data other := by
  obtain ⟨byte, differs⟩ := another_byte (image other)
  refine ⟨Function.update image place byte, ?_⟩
  have elsewhere : withLines image (Function.update image place byte) other = image other := by
    rw [withLines, Function.update_of_ne apart, ite_self]
  rw [elsewhere, withLines, if_pos ⟨inside, below⟩, Function.update_self]
  exact differs

theorem le16_lt (image : Nat → UInt8) (place : Nat) : le16 image place < 2 ^ 16 := by
  have first := (image place).toNat_lt
  have second := (image (place + 1)).toNat_lt
  rw [le16]
  omega

theorem le32_lt (image : Nat → UInt8) (place : Nat) : le32 image place < 2 ^ 32 := by
  have low := le16_lt image place
  have high := le16_lt image (place + 2)
  rw [le32]
  omega

/-- The padded width of the code is that of the lines, as a ushort. -/
theorem padded_line (image : Nat → UInt8) : paddedLine (width image) = lineBytes image % 2 ^ 16 := by
  have below : width image < 2 ^ 32 := le32_lt image 18
  have low : width image &&& 3 = width image % 4 := Nat.and_two_pow_sub_one_eq_mod (width image) 2
  have high : width image &&& (2 ^ 32 - 4) = width image / 4 * 4 :=
    @round_down (width image) 2 (by decide) below
  rw [paddedLine, lineBytes, low, high]
  by_cases whole : width image % 4 = 0
  · rw [if_neg (not_not_intro whole)]
    have same : (width image + 3) / 4 * 4 = width image := by omega
    rw [same]
  · rw [if_pos whole]
    have next : (width image + 3) / 4 * 4 = width image / 4 * 4 + 4 := by omega
    rw [next]

theorem width_le_line (image : Nat → UInt8) : width image ≤ lineBytes image := by
  rw [lineBytes]
  omega

end Data

/-! ### Where it is written -/

/-- The lines or columns of the panel that a part of so many belongs to. -/
def coords (pos : Int) (size limit : Nat) : Finset Nat :=
  Finset.Ico (max pos 0).toNat (min (pos + size) limit).toNat

section Coords
variable {pos : Int} {size limit : Nat}

theorem mem_coords {c : Nat} : c ∈ coords pos size limit ↔ c < limit ∧ ∃ j : Nat, j < size ∧ (c : Int) = pos + j := by
  rw [coords, Finset.mem_Ico]
  constructor
  · intro between
    refine ⟨by omega, (c - pos).toNat, by omega, by omega⟩
  · rintro ⟨below, j, inside, place⟩
    omega

theorem coords_card : (coords pos size limit).card = (min (pos + size) limit).toNat - (max pos 0).toNat := by
  rw [coords, Nat.card_Ico]

theorem coords_card_limit : (coords pos size limit).card ≤ limit := by
  rw [coords_card]
  omega

/-- What a ushort can count to is right from 0 on, and in front of it more than there is. -/
theorem clipped_small (int : -2 ^ 31 ≤ pos ∧ pos < 2 ^ 31) (size_lt : size < 2 ^ 32) (limit_lt : limit < 2 ^ 16)
    (small : clipped pos size limit < 2 ^ 16) :
    (Within pos size limit ∧ (clipped pos size limit : Int) = min (size : Int) (limit - pos)) ∨
      pos < 0 ∧ ((clipped pos size limit : Int) = limit - pos ∨
        clipped pos size limit = size ∧ -pos ≤ size ∧ (size : Int) ≤ limit - pos) := by
  rw [Within]
  by_cases beyond : ulong (pos + size) > limit
  · rw [clipped, if_pos beyond] at small ⊢
    simp only [ulong] at beyond small ⊢
    omega
  · rw [clipped, if_neg beyond] at small ⊢
    simp only [ulong] at beyond
    omega

theorem clipped_within (limit_lt : limit < 2 ^ 16) (within : Within pos size limit) :
    (clipped pos size limit : Int) = min (size : Int) (limit - pos) := by
  obtain ⟨from_zero, to_limit, no_wrap⟩ := within
  by_cases beyond : ulong (pos + size) > limit
  · rw [clipped, if_pos beyond]
    simp only [ulong] at beyond ⊢
    omega
  · rw [clipped, if_neg beyond]
    simp only [ulong] at beyond
    omega

/-- Nothing is left of what is empty or begins at the edge. -/
theorem empty_iff (int : -2 ^ 31 ≤ pos ∧ pos < 2 ^ 31) (size_lt : size < 2 ^ 32) (limit_lt : limit < 2 ^ 16) :
    clipped pos size limit = 0 ↔ Within pos size limit ∧ (size = 0 ∨ pos = limit) := by
  rw [Within]
  by_cases beyond : ulong (pos + size) > limit
  · rw [clipped, if_pos beyond]
    simp only [ulong] at beyond ⊢
    omega
  · rw [clipped, if_neg beyond]
    simp only [ulong] at beyond
    omega

theorem clipped_small_iff (int : -2 ^ 31 ≤ pos ∧ pos < 2 ^ 31) (size_lt : size < 2 ^ 32) (limit_lt : limit < 2 ^ 16) :
    clipped pos size limit < 2 ^ 16 ↔ Ends pos size limit := by
  rw [Ends, Within]
  by_cases beyond : ulong (pos + size) > limit
  · rw [clipped, if_pos beyond]
    simp only [ulong] at beyond ⊢
    omega
  · rw [clipped, if_neg beyond]
    simp only [ulong] at beyond
    omega

theorem coords_card_le (int : -2 ^ 31 ≤ pos ∧ pos < 2 ^ 31) (size_lt : size < 2 ^ 32) (limit_lt : limit < 2 ^ 16)
    (small : clipped pos size limit < 2 ^ 16) : (coords pos size limit).card ≤ clipped pos size limit := by
  rw [coords_card]
  rcases clipped_small int size_lt limit_lt small with ⟨⟨from_zero, to_limit, -⟩, same⟩ | ⟨before, same | same⟩
  · omega
  · omega
  · omega

theorem coords_card_lt (int : -2 ^ 31 ≤ pos ∧ pos < 2 ^ 31) (size_lt : size < 2 ^ 32) (limit_lt : limit < 2 ^ 16)
    (small : clipped pos size limit < 2 ^ 16) (before : pos < 0) :
    (coords pos size limit).card < clipped pos size limit := by
  rw [coords_card]
  rcases clipped_small int size_lt limit_lt small with ⟨⟨from_zero, -⟩, -⟩ | ⟨-, same | same⟩
  · omega
  · omega
  · omega

end Coords

theorem covered_iff {panel : Panel} {image : Nat → UInt8} {x y : Int} {address : Nat} :
    Covered panel image x y address ↔
      ∃ line ∈ coords y (height image) panel.vlRow, ∃ col ∈ coords x (width image) panel.vlCol,
        address = line * panel.vlCol + col := by
  constructor
  · rintro ⟨j, j_inside, i, i_inside, col, col_inside, line, line_inside, col_eq, line_eq, rfl⟩
    exact ⟨line, mem_coords.mpr ⟨line_inside, i, i_inside, line_eq⟩, col,
      mem_coords.mpr ⟨col_inside, j, j_inside, col_eq⟩, rfl⟩
  · rintro ⟨line, line_member, col, col_member, rfl⟩
    obtain ⟨line_inside, i, i_inside, line_eq⟩ := mem_coords.mp line_member
    obtain ⟨col_inside, j, j_inside, col_eq⟩ := mem_coords.mp col_member
    exact ⟨j, j_inside, i, i_inside, col, col_inside, line, line_inside, col_eq, line_eq, rfl⟩

theorem ulong_injective {base : Int} {first second : Nat} (first_small : first < 2 ^ 32) (second_small : second < 2 ^ 32)
    (same : ulong (base + first) = ulong (base + second)) : first = second := by
  simp only [ulong] at same
  omega

theorem ulong_of {n : Nat} (small : n < 2 ^ 32) : ulong n = n := by
  simp only [ulong]
  omega

section Covering
variable {panel : Panel} {image : Nat → UInt8} {x y : Int}

/-- No more offsets than points of the panel. -/
theorem offsets_le {base : Int} {offsets : Finset Nat} (small : ∀ k ∈ offsets, k < 2 ^ 32)
    (covered : ∀ k ∈ offsets, Covered panel image x y (ulong (base + k))) :
    offsets.card ≤ (coords y (height image) panel.vlRow).card * (coords x (width image) panel.vlCol).card := by
  have apart : Set.InjOn (fun k : Nat => ulong (base + k)) offsets := fun first first_member second second_member =>
    ulong_injective (small first first_member) (small second second_member)
  have inside : offsets.image (fun k : Nat => ulong (base + k)) ⊆
      (coords y (height image) panel.vlRow ×ˢ coords x (width image) panel.vlCol).image fun point =>
        point.1 * panel.vlCol + point.2 := by
    intro address member
    obtain ⟨k, k_member, rfl⟩ := Finset.mem_image.mp member
    obtain ⟨line, line_member, col, col_member, place⟩ := covered_iff.mp (covered k k_member)
    exact Finset.mem_image.mpr ⟨(line, col), Finset.mem_product.mpr ⟨line_member, col_member⟩, place.symm⟩
  calc offsets.card
      = (offsets.image fun k : Nat => ulong (base + k)).card := (Finset.card_image_of_injOn apart).symm
    _ ≤ _ := Finset.card_le_card inside
    _ ≤ (coords y (height image) panel.vlRow ×ˢ coords x (width image) panel.vlCol).card := Finset.card_image_le
    _ = _ := Finset.card_product _ _

/-- The offsets of so many lines of bytes that are not longer than those of the panel. -/
theorem block_card {width height length : Nat} (fits : width ≤ length) :
    ((Finset.range height ×ˢ Finset.range width).image fun point => point.1 * length + point.2).card =
      height * width := by
  rw [Finset.card_image_of_injOn, Finset.card_product, Finset.card_range, Finset.card_range]
  rintro ⟨i, j⟩ first ⟨other, place⟩ second same
  have j_inside : j < length := by
    have := (Finset.mem_range.mp (Finset.mem_product.mp first).2)
    omega
  have place_inside : place < length := by
    have := (Finset.mem_range.mp (Finset.mem_product.mp second).2)
    omega
  obtain ⟨rfl, rfl⟩ := (address_apart j_inside place_inside).mp same
  rfl

/-- Where byte `j` of line `i` from below goes. -/
def target (panel : Panel) (image : Nat → UInt8) (x y : Int) (i j : Nat) : Nat :=
  ulong ((y + shownHeight panel image y - 1) * panel.vlCol + x - (i : Int) * panel.vlCol + (j : Int))

theorem target_line {i below j : Nat} (lines : shownHeight panel image y = i + 1 + below) :
    target panel image x y below j = ulong (y * panel.vlCol + x + (i * panel.vlCol + j : Nat)) := by
  rw [target, lines]
  congr 1
  push_cast
  ring

/-- An image that begins to the left of the panel or above it is written outside of its points: more bytes
are written than there are points. -/
theorem written_uncovered (x_int : -2 ^ 31 ≤ x ∧ x < 2 ^ 31) (y_int : -2 ^ 31 ≤ y ∧ y < 2 ^ 31)
    (few : shownHeight panel image y < 2 ^ 16) (narrow : shownWidth panel image x < 2 ^ 16)
    (some_line : 0 < shownHeight panel image y) (some_col : 0 < shownWidth panel image x) (before : x < 0 ∨ y < 0) :
    ∃ i < shownHeight panel image y, ∃ j < shownWidth panel image x,
      ¬ Covered panel image x y (target panel image x y i j) := by
  by_contra! covered
  have lines : ∀ i < shownHeight panel image y, ∀ j < shownWidth panel image x,
      Covered panel image x y (ulong (y * panel.vlCol + x + (i * panel.vlCol + j : Nat))) := by
    intro i i_inside j j_inside
    obtain ⟨below, height_eq⟩ := Nat.exists_eq_add_of_lt i_inside
    have reached := covered below (by omega) j j_inside
    rw [@target_line panel image x y i below j (by omega)] at reached
    exact reached
  have col_small := panel.vl_col_lt
  have rows_le : (coords y (height image) panel.vlRow).card ≤ shownHeight panel image y :=
    coords_card_le y_int (le32_lt image 22) panel.vl_row_lt few
  have cols_le : (coords x (width image) panel.vlCol).card ≤ shownWidth panel image x :=
    coords_card_le x_int (le32_lt image 18) panel.vl_col_lt narrow
  have block : shownHeight panel image y * panel.vlCol ≤ 65535 * 65535 := Nat.mul_le_mul (by omega) (by omega)
  by_cases fits : shownWidth panel image x ≤ panel.vlCol
  · have count := @offsets_le panel image x y (y * panel.vlCol + x)
      ((Finset.range (shownHeight panel image y) ×ˢ Finset.range (shownWidth panel image x)).image
        fun point => point.1 * panel.vlCol + point.2) ?_ ?_
    · rw [block_card fits] at count
      rcases before with left | above
      · have fewer := coords_card_lt x_int (le32_lt image 18) panel.vl_col_lt narrow left
        have less := Nat.mul_lt_mul_of_le_of_lt rows_le fewer some_line
        exact absurd count (Nat.not_le.mpr less)
      · have fewer := coords_card_lt y_int (le32_lt image 22) panel.vl_row_lt few above
        have less := Nat.mul_lt_mul_of_lt_of_le fewer cols_le some_col
        exact absurd count (Nat.not_le.mpr less)
    · intro k member
      obtain ⟨⟨i, j⟩, inside, rfl⟩ := Finset.mem_image.mp member
      obtain ⟨i_inside, j_inside⟩ := Finset.mem_product.mp inside
      have column : j < panel.vlCol := Nat.lt_of_lt_of_le (Finset.mem_range.mp j_inside) fits
      have within := (@address_lt panel.vlCol i j _ column).mpr (Finset.mem_range.mp i_inside)
      exact Nat.lt_of_lt_of_le within (by omega)
    · intro k member
      obtain ⟨⟨i, j⟩, inside, rfl⟩ := Finset.mem_image.mp member
      obtain ⟨i_inside, j_inside⟩ := Finset.mem_product.mp inside
      exact lines i (Finset.mem_range.mp i_inside) j (Finset.mem_range.mp j_inside)
  · have count := @offsets_le panel image x y (y * panel.vlCol + x)
      (Finset.range (shownHeight panel image y * panel.vlCol + 1)) ?_ ?_
    · rw [Finset.card_range] at count
      have most := Nat.mul_le_mul rows_le (@coords_card_limit x (width image) panel.vlCol)
      omega
    · intro k member
      have := Finset.mem_range.mp member
      omega
    · intro k member
      by_cases last : k = shownHeight panel image y * panel.vlCol
      · -- the byte behind the lowest line of the panel that is written
        obtain ⟨top, height_eq⟩ := Nat.exists_eq_succ_of_ne_zero (Nat.pos_iff_ne_zero.mp some_line)
        have place : k = top * panel.vlCol + panel.vlCol := by rw [last, height_eq, Nat.succ_mul]
        rw [place]
        exact lines top (by omega) panel.vlCol (by omega)
      · have below : k < shownHeight panel image y * panel.vlCol := by
          have := Finset.mem_range.mp member
          omega
        have positive : 0 < panel.vlCol := Nat.pos_of_mul_pos_left (Nat.zero_lt_of_lt below)
        have split := Nat.div_add_mod' k panel.vlCol
        rw [← split]
        have column := Nat.mod_lt k positive
        exact lines _ (Nat.div_lt_of_lt_mul (by rw [Nat.mul_comm]; exact below)) _ (by omega)

end Covering

/-! ### Images that begin on the panel -/

/-- Where byte `j` of line `i` from below comes from. -/
def origin (panel : Panel) (image : Nat → UInt8) (x : Int) (i j : Nat) : Nat :=
  ulong (dataOffset image + (i : Int) * (2 * shownWidth panel image x - paddedLine (width image)) + (j : Int))

section Placing
variable {board : Board} {panel : Panel} {image : Nat → UInt8} {x y : Int} {write : Nat × UInt8}

theorem mem_image_writes :
    write ∈ imageWrites board panel image x y ↔
      ∃ i : Nat, i < shownHeight panel image y ∧ ∃ j : Nat, j < shownWidth panel image x ∧
        write = (target panel image x y i j, board.shown (image (origin panel image x i j))) :=
  mem_writes board image _ _ _

theorem target_on_panel {i j line col : Nat} (line_eq : (line : Int) = y + shownHeight panel image y - 1 - i)
    (col_eq : (col : Int) = x + j) (line_inside : line < panel.vlRow) (col_inside : col < panel.vlCol) :
    target panel image x y i j = line * panel.vlCol + col := by
  have place : (y + shownHeight panel image y - 1) * panel.vlCol + x - (i : Int) * panel.vlCol + (j : Int) =
      (line * panel.vlCol + col : Nat) := by
    push_cast
    rw [line_eq, col_eq]
    ring
  have row_small := panel.vl_row_lt
  have col_small := panel.vl_col_lt
  have below := (@address_lt panel.vlCol line col panel.vlRow col_inside).mpr line_inside
  have most : panel.vlRow * panel.vlCol ≤ 65535 * 65535 := Nat.mul_le_mul (by omega) (by omega)
  rw [target, place, ulong_of (by omega)]

/-- What is shown is the part of the image that is on the panel. -/
structure Clipped (panel : Panel) (image : Nat → UInt8) (x y : Int) : Prop where
  right : Within x (width image) panel.vlCol
  down : Within y (height image) panel.vlRow
  width_eq : (shownWidth panel image x : Int) = min (width image : Int) (panel.vlCol - x)
  height_eq : (shownHeight panel image y : Int) = min (height image : Int) (panel.vlRow - y)

/-- A byte that is shown has a line and a column of the panel. -/
theorem place_on_panel (clipped : Clipped panel image x y) {i j : Nat} (i_inside : i < shownHeight panel image y)
    (j_inside : j < shownWidth panel image x) :
    ∃ line < panel.vlRow, ∃ col < panel.vlCol, (line : Int) = y + shownHeight panel image y - 1 - i ∧
      (col : Int) = x + j ∧ target panel image x y i j = line * panel.vlCol + col := by
  obtain ⟨⟨x_from, x_to, -⟩, ⟨y_from, y_to, -⟩, width_eq, height_eq⟩ := clipped
  obtain ⟨line, line_eq⟩ := Int.eq_ofNat_of_zero_le (show 0 ≤ y + shownHeight panel image y - 1 - i by omega)
  obtain ⟨col, col_eq⟩ := Int.eq_ofNat_of_zero_le (show 0 ≤ x + j by omega)
  have line_inside : line < panel.vlRow := by omega
  have col_inside : col < panel.vlCol := by omega
  exact ⟨line, line_inside, col, col_inside, line_eq.symm, col_eq.symm,
    target_on_panel line_eq.symm col_eq.symm line_inside col_inside⟩

theorem drawn_at (clipped : Clipped panel image x y) (frame : Nat → UInt8) {i j : Nat}
    (i_inside : i < shownHeight panel image y) (j_inside : j < shownWidth panel image x) :
    stored frame (imageWrites board panel image x y) (target panel image x y i j) =
      board.shown (image (origin panel image x i j)) := by
  apply stored_at
  · exact ⟨_, mem_image_writes.mpr ⟨i, i_inside, j, j_inside, rfl⟩, rfl⟩
  · intro write member same
    obtain ⟨other, other_inside, place, place_inside, rfl⟩ := mem_image_writes.mp member
    obtain ⟨line, -, col, col_inside, line_eq, col_eq, here⟩ := place_on_panel clipped i_inside j_inside
    obtain ⟨next, -, next_col, next_inside, next_eq, next_col_eq, there⟩ :=
      place_on_panel clipped other_inside place_inside
    simp only at same
    rw [here, there] at same
    obtain ⟨rfl, rfl⟩ := (address_apart next_inside col_inside).mp same
    have same_line : other = i := by omega
    have same_place : place = j := by omega
    rw [same_line, same_place]

/-- What is written outside the panel's part of the image stays. -/
theorem covered_of_target (clipped : Clipped panel image x y) (whole : shownHeight panel image y = height image)
    {i j : Nat} (i_inside : i < shownHeight panel image y) (j_inside : j < shownWidth panel image x) :
    Covered panel image x y (target panel image x y i j) := by
  obtain ⟨line, line_inside, col, col_inside, line_eq, col_eq, place⟩ := place_on_panel clipped i_inside j_inside
  have width_eq := clipped.width_eq
  exact ⟨j, by omega, height image - 1 - i, by omega, col, col_inside, line, line_inside, col_eq, by omega, place⟩

/-- The pixel of a line from above, and where the byte of the same line from below comes from. -/
theorem origin_pixel (bmp : Bmp8 image) (narrow : shownWidth panel image x ≤ width image) {i j : Nat}
    (i_inside : i < height image) (j_inside : j < shownWidth panel image x)
    (stride : height image ≤ 1 ∨
      2 * shownWidth panel image x = lineBytes image + lineBytes image % 2 ^ 16) :
    origin panel image x (height image - 1 - i) j = dataOffset image + (height image - 1 - i) * lineBytes image + j := by
  have line := width_le_line image
  have within := (@address_lt (lineBytes image) (height image - 1 - i) j (height image) (by omega)).mpr (by omega)
  have inside := bmp.inside
  have place : (dataOffset image : Int) +
      ((height image - 1 - i : Nat) : Int) * (2 * shownWidth panel image x - paddedLine (width image)) + (j : Int) =
        (dataOffset image + (height image - 1 - i) * lineBytes image + j : Nat) := by
    rcases stride with one | even
    · have none : height image - 1 - i = 0 := by omega
      rw [none]
      push_cast
      ring
    · have step : (2 * shownWidth panel image x - paddedLine (width image) : Int) = lineBytes image := by
        rw [padded_line]
        omega
      rw [step]
      push_cast
      ring
  rw [origin, place, ulong_of (by omega)]

end Placing

/-! ### Right images -/

section Right
variable {board : Board} {panel : Panel} {image : Nat → UInt8} {invertColors : Bool} {bmpImage : Nat} {x y : Int32}
  {before : Display}

/-- What is left on the display. -/
def drawn (board : Board) (invertColors : Bool) (panel : Panel) (image : Nat → UInt8) (x y : Int) (before : Display) :
    Display where
  frame := stored before.frame (imageWrites board panel image x y)
  cmap := setColorMap board invertColors image (1 <<< 8) before.cmap

theorem drawn_frame (x y : Int) : (drawn board invertColors panel image x y before).frame =
    stored before.frame (imageWrites board panel image x y) := rfl

theorem drawn_colors (x y : Int) (color : UInt8) :
    (drawn board invertColors panel image x y before).cmap (board.shown color).toNat =
      colreg invertColors (colorTable image color.toNat) := by
  have inside : color.toNat < 256 := color.toNat_lt
  have colors : 1 <<< 8 = 256 := rfl
  simp only [drawn]
  rw [shown_entry, colors, color_map_at 256 before.cmap (Nat.le_refl 256) inside, if_pos inside]

/-- Nothing is drawn, and nothing has to be. -/
theorem nothing_right {x y : Int} (none : shownHeight panel image y = 0 ∨ shownWidth panel image x = 0)
    (no_point : ∀ address, ¬ Covered panel image x y address) :
    Draws board invertColors panel image x y before (drawn board invertColors panel image x y before) := by
  have same : (drawn board invertColors panel image x y before).frame = before.frame := by
    funext address
    apply stored_other
    intro write member
    obtain ⟨i, i_inside, j, j_inside, -⟩ := mem_image_writes.mp member
    omega
  refine ⟨?_, fun address _ _ => congrFun same address, drawn_colors x y⟩
  intro j j_inside i i_inside col col_inside line line_inside col_eq line_eq
  exact absurd ⟨j, j_inside, i, i_inside, col, col_inside, line, line_inside, col_eq, line_eq, rfl⟩
    (no_point (line * panel.vlCol + col))

theorem whole_right (bmp : Bmp8 image) {x y : Int} (clipped : Clipped panel image x y)
    (whole : shownHeight panel image y = height image)
    (stride : height image ≤ 1 ∨ 2 * shownWidth panel image x = lineBytes image + lineBytes image % 2 ^ 16) :
    Draws board invertColors panel image x y before (drawn board invertColors panel image x y before) := by
  have width_eq := clipped.width_eq
  refine ⟨?_, ?_, drawn_colors x y⟩
  · intro j j_inside i i_inside col col_inside line line_inside col_eq line_eq
    have shown : j < shownWidth panel image x := by omega
    have below : height image - 1 - i < shownHeight panel image y := by omega
    have place := @target_on_panel panel image x y (height image - 1 - i) j line col (by omega) col_eq
      line_inside col_inside
    have byte := @drawn_at board panel image x y clipped before.frame _ j below shown
    rw [origin_pixel bmp (by omega) i_inside shown stride] at byte
    rw [byteAt, ← place]
    exact byte
  · intro address _ uncovered
    apply stored_other
    rintro write member rfl
    obtain ⟨i, i_inside, j, j_inside, rfl⟩ := mem_image_writes.mp member
    exact uncovered (covered_of_target clipped whole i_inside j_inside)

/-- The image comes out right with whatever lines. -/
def RightLines (board : Board) (invertColors : Bool) (panel : Panel) (image : Nat → UInt8) (bmpImage : Nat)
    (x y : Int32) : Prop :=
  ∀ data before, ∃ fuel after,
    lcdDisplayBitmap board (withLines image data) invertColors panel bmpImage x y fuel before = some (.ok after) ∧
      Draws board invertColors panel (withLines image data) x.toInt y.toInt before after

theorem shown_width_kept (bmp : Bmp8 image) (data : Nat → UInt8) (x : Int) :
    shownWidth panel (withLines image data) x = shownWidth panel image x := by
  rw [shownWidth, width_kept bmp, shownWidth]

theorem shown_height_kept (bmp : Bmp8 image) (data : Nat → UInt8) (y : Int) :
    shownHeight panel (withLines image data) y = shownHeight panel image y := by
  rw [shownHeight, height_kept bmp, shownHeight]

theorem target_kept (bmp : Bmp8 image) (data : Nat → UInt8) (x y : Int) (i j : Nat) :
    target panel (withLines image data) x y i j = target panel image x y i j := by
  rw [target, shown_height_kept bmp, target]

theorem origin_kept (bmp : Bmp8 image) (data : Nat → UInt8) (x : Int) (i j : Nat) :
    origin panel (withLines image data) x i j = origin panel image x i j := by
  rw [origin, data_offset_kept bmp, shown_width_kept bmp, width_kept bmp, origin]

theorem ends_kept (bmp : Bmp8 image) (data : Nat → UInt8) (x y : Int) :
    LoopsEnd panel (withLines image data) x y ↔ LoopsEnd panel image x y := by
  rw [LoopsEnd, shown_height_kept bmp, shown_width_kept bmp, LoopsEnd]

theorem clipped_kept (bmp : Bmp8 image) (data : Nat → UInt8) {x y : Int} (clipped : Clipped panel image x y) :
    Clipped panel (withLines image data) x y := by
  obtain ⟨right, down, width_eq, height_eq⟩ := clipped
  refine ⟨?_, ?_, ?_, ?_⟩
  · rw [width_kept bmp]
    exact right
  · rw [height_kept bmp]
    exact down
  · rw [width_kept bmp, shown_width_kept bmp]
    exact width_eq
  · rw [height_kept bmp, shown_height_kept bmp]
    exact height_eq

/-- With any fuel there is no other result than what has been drawn. -/
theorem display_result (color8 : nbits panel.vlBpix = 8) (bmp : Bmp8 image)
    (ends : LoopsEnd panel image x.toInt y.toInt) {fuel : Nat} {after : Display}
    (result : lcdDisplayBitmap board image invertColors panel bmpImage x y fuel before = some (.ok after)) :
    after = drawn board invertColors panel image x.toInt y.toInt before := by
  rw [display_eq color8 bmp] at result
  rcases lines_result ends.1 _ with stuck | ended
  · rw [stuck] at result
    cases result
  · rw [ended, lines_drawn] at result
    cases result
    rfl

theorem right_lines_iff (color8 : nbits panel.vlBpix = 8) (bmp : Bmp8 image) :
    RightLines board invertColors panel image bmpImage x y ↔
      LoopsEnd panel image x.toInt y.toInt ∧ ∀ data before,
        Draws board invertColors panel (withLines image data) x.toInt y.toInt before
          (drawn board invertColors panel (withLines image data) x.toInt y.toInt before) := by
  constructor
  · intro right
    have ends : LoopsEnd panel image x.toInt y.toInt := by
      by_contra endless
      obtain ⟨fuel, after, result, -⟩ := right image ⟨image, fun _ => 0⟩
      rw [display_none color8 (with_lines_bmp bmp image) (mt (ends_kept bmp image _ _).mp endless)] at result
      cases result
    refine ⟨ends, fun data before => ?_⟩
    obtain ⟨fuel, after, result, draws⟩ := right data before
    rw [display_result color8 (with_lines_bmp bmp data) ((ends_kept bmp data _ _).mpr ends) result] at draws
    exact draws
  · rintro ⟨ends, draws⟩ data before
    have more := @display_some board panel (withLines image data) invertColors bmpImage x y before color8
      (with_lines_bmp bmp data) ((ends_kept bmp data _ _).mpr ends) _ (Nat.lt_succ_self _)
    exact ⟨_, _, more, draws data before⟩

/-- Where every byte is right with whatever lines, the bytes come from the lines of the pixels. -/
theorem places_agree (bmp : Bmp8 image) {x y : Int} (clipped : Clipped panel image x y)
    (draws : ∀ data before, Draws board invertColors panel (withLines image data) x y before
      (drawn board invertColors panel (withLines image data) x y before)) {i j : Nat}
    (i_inside : i < shownHeight panel image y) (j_inside : j < shownWidth panel image x) :
    origin panel image x (shownHeight panel image y - 1 - i) j =
      dataOffset image + (height image - 1 - i) * lineBytes image + j := by
  have width_eq := clipped.width_eq
  have height_eq := clipped.height_eq
  have line := width_le_line image
  have within := (@address_lt (lineBytes image) (height image - 1 - i) j (height image) (by omega)).mpr (by omega)
  by_contra apart
  obtain ⟨data, differ⟩ := @lines_differ image _ _ (by omega) (by omega) apart
  obtain ⟨row, row_inside, col, col_inside, row_eq, col_eq, place⟩ :=
    place_on_panel clipped (show shownHeight panel image y - 1 - i < shownHeight panel image y by omega) j_inside
  have point := (draws data ⟨fun _ => 0, fun _ => 0⟩).points j (by rw [width_kept bmp]; omega) i
    (by rw [height_kept bmp]; omega) col col_inside row row_inside col_eq (by omega)
  have byte := @drawn_at board panel (withLines image data) x y (clipped_kept bmp data clipped) (fun _ => 0)
    (shownHeight panel image y - 1 - i) j (by rw [shown_height_kept bmp]; omega)
    (by rw [shown_width_kept bmp]; exact j_inside)
  rw [target_kept bmp, origin_kept bmp, place] at byte
  rw [byteAt, drawn_frame, byte] at point
  have same := shown_injective point
  rw [LcdBitmap.pixel, data_offset_kept bmp, height_kept bmp, line_bytes_kept bmp] at same
  exact differ same.symm

theorem begins_on_panel (ends : LoopsEnd panel image x.toInt y.toInt)
    (some_line : 0 < shownHeight panel image y.toInt) (some_col : 0 < shownWidth panel image x.toInt)
    (draws : ∀ before, Draws board invertColors panel image x.toInt y.toInt before
      (drawn board invertColors panel image x.toInt y.toInt before)) :
    Clipped panel image x.toInt y.toInt := by
  have x_int : -2 ^ 31 ≤ x.toInt ∧ x.toInt < 2 ^ 31 := ⟨x.le_toInt, x.toInt_lt⟩
  have y_int : -2 ^ 31 ≤ y.toInt ∧ y.toInt < 2 ^ 31 := ⟨y.le_toInt, y.toInt_lt⟩
  have few := ends.1
  have narrow : shownWidth panel image x.toInt < 2 ^ 16 := by
    have := ends.2
    omega
  have inside : ¬ (x.toInt < 0 ∨ y.toInt < 0) := by
    intro before
    obtain ⟨i, i_inside, j, j_inside, uncovered⟩ :=
      written_uncovered x_int y_int few narrow some_line some_col before
    have written : ∃ write ∈ imageWrites board panel image x.toInt y.toInt,
        write.1 = target panel image x.toInt y.toInt i j :=
      ⟨_, mem_image_writes.mpr ⟨i, i_inside, j, j_inside, rfl⟩, rfl⟩
    obtain ⟨byte, differs⟩ := another_byte
      (stored (fun _ => 0) (imageWrites board panel image x.toInt y.toInt) (target panel image x.toInt y.toInt i j))
    have kept := (draws ⟨fun _ => byte, fun _ => 0⟩).others _ (by rw [target, ulong]; omega) uncovered
    have changed : (drawn board invertColors panel image x.toInt y.toInt ⟨fun _ => byte, fun _ => 0⟩).frame
        (target panel image x.toInt y.toInt i j) = _ := stored_any written fun _ => 0
    exact differs (kept.symm.trans changed)
  rcases clipped_small x_int (le32_lt image 18) panel.vl_col_lt narrow with ⟨right, width_eq⟩ | ⟨left, -⟩
  · rcases clipped_small y_int (le32_lt image 22) panel.vl_row_lt few with ⟨down, height_eq⟩ | ⟨above, -⟩
    · exact ⟨right, down, width_eq, height_eq⟩
    · omega
  · omega

theorem whole_and_stride (bmp : Bmp8 image) {x y : Int} (clipped : Clipped panel image x y)
    (some_line : 0 < shownHeight panel image y) (some_col : 0 < shownWidth panel image x)
    (narrow : shownWidth panel image x < 2 ^ 16)
    (draws : ∀ data before, Draws board invertColors panel (withLines image data) x y before
      (drawn board invertColors panel (withLines image data) x y before)) :
    shownHeight panel image y = height image ∧
      (height image ≤ 1 ∨ 2 * shownWidth panel image x = lineBytes image + lineBytes image % 2 ^ 16) := by
  have width_eq := clipped.width_eq
  have height_eq := clipped.height_eq
  have line := width_le_line image
  have inside := bmp.inside
  have offset_lt : dataOffset image < 2 ^ 32 := le32_lt image 10
  have whole : shownHeight panel image y = height image := by
    have lowest := @places_agree board panel image invertColors bmp x y clipped draws
      (shownHeight panel image y - 1) 0 (by omega) some_col
    have first : shownHeight panel image y - 1 - (shownHeight panel image y - 1) = 0 := Nat.sub_self _
    rw [first, origin, Nat.cast_zero, zero_mul, add_zero, add_zero, ulong_of offset_lt, Nat.add_zero] at lowest
    have none : (height image - 1 - (shownHeight panel image y - 1)) * lineBytes image = 0 := by omega
    rcases Nat.mul_eq_zero.mp none with same | empty
    · omega
    · omega
  refine ⟨whole, ?_⟩
  by_cases single : height image ≤ 1
  · exact Or.inl single
  · right
    have next := @places_agree board panel image invertColors bmp x y clipped draws
      (height image - 2) 0 (by omega) some_col
    have second : shownHeight panel image y - 1 - (height image - 2) = 1 := by omega
    have step : height image - 1 - (height image - 2) = 1 := by omega
    have two_lines : 2 * lineBytes image ≤ height image * lineBytes image :=
      Nat.mul_le_mul_right _ (by omega)
    rw [second, step, origin, padded_line, ulong, Nat.cast_one, one_mul, one_mul] at next
    push_cast at next
    have width_lt := narrow
    generalize lineBytes image = bytes at next two_lines inside ⊢
    generalize shownWidth panel image x = shown at next width_lt ⊢
    omega

/-- An image comes out right with whatever lines just where nothing has to be drawn, or it begins on the panel,
ends above its lower edge and its lines are read one behind the other. -/
theorem lcd_display_bitmap_iff (board : Board) (invertColors : Bool) (panel : Panel) (image : Nat → UInt8)
    (bmpImage : Nat) (x y : Int32) (color8 : nbits panel.vlBpix = 8) (bmp : Bmp8 image) :
    RightLines board invertColors panel image bmpImage x y ↔ Placed panel image x.toInt y.toInt := by
  have x_int : -2 ^ 31 ≤ x.toInt ∧ x.toInt < 2 ^ 31 := ⟨x.le_toInt, x.toInt_lt⟩
  have y_int : -2 ^ 31 ≤ y.toInt ∧ y.toInt < 2 ^ 31 := ⟨y.le_toInt, y.toInt_lt⟩
  have x_ends : shownWidth panel image x.toInt < 2 ^ 16 ↔ Ends x.toInt (width image) panel.vlCol :=
    clipped_small_iff x_int (le32_lt image 18) panel.vl_col_lt
  have y_ends : shownHeight panel image y.toInt < 2 ^ 16 ↔ Ends y.toInt (height image) panel.vlRow :=
    clipped_small_iff y_int (le32_lt image 22) panel.vl_row_lt
  have x_none : shownWidth panel image x.toInt = 0 ↔ _ := empty_iff x_int (le32_lt image 18) panel.vl_col_lt
  have y_none : shownHeight panel image y.toInt = 0 ↔ _ := empty_iff y_int (le32_lt image 22) panel.vl_row_lt
  rw [right_lines_iff color8 bmp]
  constructor
  · rintro ⟨ends, draws⟩
    by_cases some_line : 0 < shownHeight panel image y.toInt
    · by_cases some_col : 0 < shownWidth panel image x.toInt
      · right
        right
        have narrow : shownWidth panel image x.toInt < 2 ^ 16 := by
          have := ends.2
          omega
        have clipped := begins_on_panel ends some_line some_col (fun before => by
          have own := draws image before
          rwa [with_own_lines] at own)
        obtain ⟨whole, stride⟩ := whole_and_stride bmp clipped some_line some_col narrow draws
        have width_eq := clipped.width_eq
        have height_eq := clipped.height_eq
        have shown : shownWidth panel image x.toInt = min (width image) (panel.vlCol - x.toInt).toNat := by omega
        rw [shown] at stride
        exact ⟨clipped.right, clipped.down, by omega, stride⟩
      · right
        left
        obtain ⟨within, nothing⟩ := x_none.mp (by omega)
        exact ⟨within, nothing, y_ends.mp ends.1⟩
    · exact Or.inl (y_none.mp (by omega))
  · rintro (⟨within, nothing⟩ | ⟨within, nothing, last⟩ | ⟨right, down, whole, stride⟩)
    · have none := y_none.mpr ⟨within, nothing⟩
      refine ⟨⟨by omega, Or.inr none⟩, fun data before => nothing_right (Or.inl (by rw [shown_height_kept bmp]; exact none)) ?_⟩
      rintro address ⟨j, -, i, i_inside, col, -, line, line_inside, -, line_eq, -⟩
      rw [height_kept bmp] at i_inside
      omega
    · have none := x_none.mpr ⟨within, nothing⟩
      refine ⟨⟨y_ends.mpr last, Or.inl (by omega)⟩,
        fun data before => nothing_right (Or.inr (by rw [shown_width_kept bmp]; exact none)) ?_⟩
      rintro address ⟨j, j_inside, i, -, col, col_inside, line, -, col_eq, -, -⟩
      rw [width_kept bmp] at j_inside
      omega
    · have width_eq : (shownWidth panel image x.toInt : Int) = _ := clipped_within panel.vl_col_lt right
      have height_eq : (shownHeight panel image y.toInt : Int) = _ := clipped_within panel.vl_row_lt down
      have clipped : Clipped panel image x.toInt y.toInt := ⟨right, down, width_eq, height_eq⟩
      refine ⟨⟨y_ends.mpr (Or.inl down), Or.inl (x_ends.mpr (Or.inl right))⟩, fun data before => ?_⟩
      have shown : shownWidth panel image x.toInt = min (width image) (panel.vlCol - x.toInt).toNat := by omega
      apply whole_right (with_lines_bmp bmp data) (clipped_kept bmp data clipped)
      · rw [shown_height_kept bmp, height_kept bmp]
        omega
      · rw [height_kept bmp, shown_width_kept bmp, line_bytes_kept bmp, shown]
        exact stride

end Right

/-- An image of two lines; they are behind a color table of 256 entries. -/
def twoLines (width : UInt8) (lines : List UInt8) (place : Nat) : UInt8 :=
  if 1078 ≤ place then lines.getD (place - 1078) 0
  else [66, 77, 0, 0, 0, 0, 0, 0, 0, 0, 0x36, 0x04, 0, 0, 40, 0, 0, 0, width, 0, 0, 0, 2, 0, 0, 0, 1, 0, 8].getD place 0

def smallPanel : Panel := ⟨8, 8, 3, by decide, by decide⟩

theorem two_lines_offset (width : UInt8) (lines : List UInt8) : dataOffset (twoLines width lines) = 1078 := by
  simp [dataOffset, le32, le16, twoLines]

theorem two_lines_height (width : UInt8) (lines : List UInt8) : height (twoLines width lines) = 2 := by
  simp [height, le32, le16, twoLines]

theorem two_lines_bmp (width : UInt8) (lines : List UInt8) : Bmp8 (twoLines width lines) where
  signature_b := by simp [twoLines]
  signature_m := by simp [twoLines]
  bit_count := by simp [bitCount, le16, twoLines]
  behind_header := by
    rw [two_lines_offset]
    decide
  inside := by
    have small := width.toNat_lt
    have bytes : LcdBitmap.width (twoLines width lines) = width.toNat := by
      simp [LcdBitmap.width, le32, le16, twoLines]
    rw [two_lines_offset, two_lines_height, lineBytes, bytes]
    omega

theorem whole_words_shown :
    RightLines .pxa250 false smallPanel (twoLines 4 [1, 2, 3, 4, 5, 6, 7, 8]) 0 0 0 :=
  (lcd_display_bitmap_iff .pxa250 false smallPanel _ 0 0 0 rfl (two_lines_bmp 4 _)).mpr
    (Or.inr (Or.inr ⟨⟨by decide, by decide, by decide⟩, ⟨by decide, by decide, by decide⟩, by decide, Or.inr (by decide)⟩))

/-- Of an image two pixels wide, both lines on the panel are the one that is first in memory. -/
theorem padded_lines_repeat :
    ¬ ∃ fuel after,
      lcdDisplayBitmap .pxa250 (twoLines 2 [1, 2, 0, 0, 3, 4, 0, 0]) false smallPanel 0 0 0 fuel
          ⟨fun _ => 0, fun _ => 0⟩ = some (.ok after) ∧
        Draws .pxa250 false smallPanel (twoLines 2 [1, 2, 0, 0, 3, 4, 0, 0]) 0 0
          ⟨fun _ => 0, fun _ => 0⟩ after := by
  rintro ⟨fuel, after, result, draws⟩
  have same := display_result rfl (two_lines_bmp 2 _) ⟨by decide, Or.inl (by decide)⟩ result
  have corner := draws.points 0 (by decide) 0 (by decide) 0 (by decide) 0 (by decide) (by decide) (by decide)
  rw [same] at corner
  exact absurd corner (by decide)

end UBoot.Common.LcdBitmap
