import SqlBackup.Codec.Zstd.Block
import SqlBackup.Digest.XxHash64

/-!
# Zstandard files

A file is a sequence of frames: blocks behind a header, or bytes to be skipped. Bytes can be stored
as they are, in a frame that says what it holds and no more.
-/
namespace SqlBackup.Codec.Zstd

/-- How much of a file is looked at in one go. -/
def stretchSize : Nat := 128 * 1024 + 3

/-- The largest window that a frame may ask for. -/
def windowLimit : Nat := Nat.pow 2 27 + 1

/-- The first bytes of a frame. -/
def magic : List UInt8 := [0x28, 0xB5, 0x2F, 0xFD]

/-- Whether some bytes may start a frame that is skipped: `5x 2A 4D 18`. -/
def startsSkippable (bytes : List UInt8) : Bool :=
  match bytes with
  | [] => true
  | b :: rest => b &&& 0xF0 == 0x50 && rest.isPrefixOf [0x2A, 0x4D, 0x18]

/-- What the header of a frame says. -/
structure Header where
  window : Nat
  contentSize : Option Nat
  checked : Bool
  /-- The offset behind the header. -/
  behind : Nat

/-- Reads the header at this offset, behind the first four bytes. -/
def Header.read (input : ByteArray) (base : Nat) : Except Trouble Header :=
  if input.size < base + 1 then .error .cutShort
  else
    let flags := byteNumber input base
    let single := flags / 32 % 2 = 1
    let dictionarySize := #[0, 1, 2, 4].getD (flags % 4) 0
    let windowSize := if single then 0 else 1
    let contentWidth := match flags / 64 with
      | 0 => if single then 1 else 0
      | 1 => 2
      | 2 => 4
      | _ => 8
    let behind := base + 1 + windowSize + dictionarySize + contentWidth
    if input.size < behind then .error .cutShort
    else
      let contentAt := base + 1 + windowSize + dictionarySize
      let content := numberAt input contentAt contentWidth + if contentWidth = 2 then 256 else 0
      let descriptor := byteNumber input (base + 1)
      let power := Nat.pow 2 (10 + descriptor / 8)
      let window := if single then content else power + power / 8 * (descriptor % 8)
      let dictionary := numberAt input (base + 1 + windowSize) dictionarySize
      if flags / 8 % 2 = 1 || dictionary != 0 || (!single && 31 < 10 + descriptor / 8) then
        .error .corrupt
      else
        .ok
          { window, behind
            contentSize := if contentWidth = 0 then none else some content
            checked := flags / 4 % 2 = 1 }

/-- A frame at work. -/
structure Work where
  memory : Memory
  output : Output
  /-- The offset of the next block. -/
  position : Nat

/-- Hands everything over if a block filled what the reader asks for. -/
def flush (o : Output) : Output :=
  if o.room < o.bytes.size - o.delivered then o.settle else o

/-- Copies bytes of the input, one by one as they are read. -/
def copyRaw (input : ByteArray) (o : Output) (i : Nat) : Nat → Output
  | 0 => o
  | n + 1 => copyRaw input ((o.touch i).push (byteAt input i)) (i + 1) n

/-- Repeats a byte. -/
def copyRun (o : Output) (b : UInt8) : Nat → Output
  | 0 => o
  | n + 1 => copyRun (o.push b) b n

/-- Decodes the block of this kind and size; `limit` bounds what it makes. Of a raw block that is
cut short the reader gets what there is. -/
def body (input : ByteArray) (limit start kind size : Nat) :
    Work → Except (Trouble × Output) Work
  | ⟨memory, output, position⟩ =>
      let stored := if kind = 1 then 1 else size
      let behind := position + stored
      if kind = 3 || (kind != 1 && limit < size) then .error (.corrupt, output)
      else if input.size < behind then
        .error (.cutShort,
          if kind = 0 then copyRaw input output position (input.size - position) else output)
      else if kind = 0 then .ok ⟨memory, copyRaw input output position size, behind⟩
      else
        let output := output.touch (behind - 1)
        let made := output.bytes.size
        if kind = 1 then
          if limit < size then .error (.corrupt, output)
          else
            .ok ⟨memory, copyRun output (byteAt input position) size, behind⟩
        else
          match block input memory limit start position behind output with
          | none => .error (.corrupt, output)
          | some (memory, output) =>
              if limit < output.bytes.size - made then .error (.corrupt, output)
              else .ok ⟨memory, output, behind⟩

/-- Decodes blocks up to the last. Each has three bytes at least. -/
def blocks (input : ByteArray) (limit start : Nat) : Nat → Work → Except (Trouble × Output) Work
  | 0, w => .error (.cutShort, w.output)
  | fuel + 1, w =>
      if input.size < w.position + 3 then .error (.cutShort, w.output)
      else
        let header := numberAt input w.position 3
        let w := { w with output := w.output.touch (w.position + 2), position := w.position + 3 }
        match body input limit start (header / 2 % 4) (header / 8) w with
        | .error trouble => .error trouble
        | .ok w =>
            if header % 2 = 1 then .ok w
            else blocks input limit start fuel { w with output := flush w.output }

/-- Whether the whole content of a frame may go to the reader in one go. -/
def fitsAtOnce (h : Header) (o : Output) : Bool :=
  match h.contentSize with
  | some n => n ≤ o.room
  | none => false

/-- Decodes the frame whose header is behind this offset, and returns the offset behind it. -/
def frame (input : ByteArray) (base : Nat) (o : Output) : Except (Trouble × Output) (Nat × Output) :=
  match Header.read input base with
  | .error trouble => .error (trouble, o)
  | .ok h =>
      let o := o.touch (h.behind - 1)
      if windowLimit < h.window && !fitsAtOnce h o then .error (.corrupt, o)
      else
        let start := o.bytes.size
        let limit := min h.window blockLimit
        match blocks input limit start (input.size + 1) ⟨.initial, o, h.behind⟩ with
        | .error trouble => .error trouble
        | .ok w =>
            let made := w.output.bytes.size - start
            if h.contentSize.isSome && h.contentSize != some made then
              .error (.corrupt, w.output)
            else if h.checked then
              let o := (flush w.output).touch (min input.size (w.position + 4) - 1)
              if input.size < w.position + 4 then .error (.cutShort, o)
              else
                let content := (o.bytes.extract start o.bytes.size).data.toList
                if (Digest.XxHash64.hash content).toNat % Nat.pow 2 32 =
                    numberAt input w.position 4 then
                  .ok (w.position + 4, o)
                else .error (.corrupt, o)
            else .ok (w.position, w.output)

/-- Decodes frames up to the end of the input. Each has four bytes at least. -/
def frames (input : ByteArray) : Nat → Nat → Output → Output × Option Trouble
  | 0, _, o => (o, none)
  | fuel + 1, base, o =>
      let front := (input.extract base (base + 4)).data.toList
      if front.isEmpty then (o, none)
      else if front.length < 4 then
        if front.isPrefixOf magic || startsSkippable front then (o, some .cutShort)
        else (o, some .corrupt)
      else if front == magic then
        match frame input (base + 4) o with
        | .error (.cutShort, o) => (o.settle, some .cutShort)
        | .error (.corrupt, o) => (o, some .corrupt)
        | .ok (base, o) => frames input fuel base o.settle
      else if startsSkippable front then
        let behind := base + 8 + numberAt input (base + 4) 4
        if input.size < base + 8 || input.size < behind then (o, some .cutShort)
        else frames input fuel behind o
      else (o, some .corrupt)

def fault : Trouble → IoFault
  | .cutShort => .layer .unexpectedEof "incomplete frame"
  | .corrupt => .layer .other "corrupt frame"

/-- What a reader gets of a file. There is one frame at least. -/
def decode (demand : Demand) (content : Files.Content) : Decoded :=
  let input := content.bytes.toByteArray
  let empty := Output.empty stretchSize demand
  let (o, trouble) :=
    if input.size = 0 then (empty, some .cutShort) else frames input (input.size + 1) 0 empty
  ⟨o.kept, failureOf fault content.failure trouble⟩

/-- The bytes of a number, the low byte first. -/
def bytesOf (count n : Nat) : List UInt8 :=
  (List.range count).map fun i => UInt8.ofNat (n / Nat.pow 256 i)

/-- Raw blocks with these bytes; the last one is marked. -/
def rawBlocks (bytes : List UInt8) : List UInt8 :=
  let body := bytes.take blockLimit
  if _short : (bytes.drop blockLimit).isEmpty then bytesOf 3 (body.length * 8 + 1) ++ body
  else bytesOf 3 (body.length * 8) ++ body ++ rawBlocks (bytes.drop blockLimit)
termination_by bytes.length
decreasing_by
  simp only [List.isEmpty_iff, List.drop_eq_nil_iff, blockLimit] at _short
  simp only [List.length_drop, blockLimit]
  omega

/-- A file of one frame, whose header asks for a window of 2 MiB. -/
def encode (bytes : List UInt8) : List UInt8 := magic ++ [0x00, 0x58] ++ rawBlocks bytes

end SqlBackup.Codec.Zstd
