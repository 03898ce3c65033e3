import Mathlib

/-!
# Consensus WAL records

WALEncoder.Encode frames each timed message as its CRC-32C checksum and its
big-endian length, four bytes each, followed by the protobuf payload.
WALDecoder.Decode reads the three parts back with one Read call each.  A reader
that fills every buffer it is given gets the messages back, then io.EOF.  The
io.Reader contract also lets a Read return fewer bytes than asked, and Decode
then reads a header out of step with the stream: through a reader that hands
out one byte per call, the first record of a stream is a DataCorruptionError.
-/

namespace Kardia.Wal

abbrev Bytes := List UInt8

def maxMsgSize : Nat := 1048576

def maxMsgSizeBytes : Nat := maxMsgSize + 24

/-! ## Checksum and header words -/

/-- The reflected Castagnoli polynomial of the crc32c table. -/
def castagnoli : UInt32 := 0x82F63B78

def crcShift (crc : UInt32) : UInt32 :=
  if crc &&& 1 = 1 then (crc >>> 1) ^^^ castagnoli else crc >>> 1

def crcByte (crc : UInt32) (b : UInt8) : UInt32 :=
  crcShift^[8] (crc ^^^ b.toUInt32)

/-- crc32.Checksum(data, crc32c), one bit at a time. -/
def checksum (data : Bytes) : UInt32 :=
  ~~~(data.foldl crcByte (~~~0))

example : checksum [0x31, 0x32, 0x33, 0x34, 0x35, 0x36, 0x37, 0x38, 0x39] = 0xE3069283 := by
  decide +kernel

/-- binary.BigEndian.PutUint32. -/
def putUint32 (v : UInt32) : Bytes :=
  [(v.toNat / 2 ^ 24).toUInt8, (v.toNat / 2 ^ 16).toUInt8, (v.toNat / 2 ^ 8).toUInt8, v.toNat.toUInt8]

/-- binary.BigEndian.Uint32 of a four-byte buffer. -/
def uint32 (b : Bytes) : UInt32 :=
  ((b.getD 0 0).toNat * 2 ^ 24 + (b.getD 1 0).toNat * 2 ^ 16 + (b.getD 2 0).toNat * 2 ^ 8 +
    (b.getD 3 0).toNat).toUInt32

@[simp] theorem length_putUint32 (v : UInt32) : (putUint32 v).length = 4 := rfl

@[simp] theorem uint32_putUint32 (v : UInt32) : uint32 (putUint32 v) = v := by
  apply UInt32.toNat_inj.mp
  have small := v.toNat_lt
  simp only [uint32, putUint32, List.getD_cons_succ, List.getD_cons_zero, Nat.toUInt8,
    UInt8.toNat_ofNat', Nat.toUInt32, UInt32.toNat_ofNat']
  omega

/-! ## Encoder -/

section Encoder

variable {α β : Type} (toProto : α → Except String β) (marshal : β → Bytes)

/--
WALEncoder.Encode: the record written for one message, given WALToProto with
the message's time (toProto) and proto.Marshal (marshal).
-/
def encode (v : α) : Except String Bytes := do
  let pbMsg ← toProto v
  let data := marshal pbMsg
  let crc := checksum data
  let length := data.length.toUInt32
  if length.toNat > maxMsgSizeBytes then
    throw s!"msg is too big: {length} bytes, max: {maxMsgSizeBytes} bytes"
  pure (putUint32 crc ++ putUint32 length ++ data.take length.toNat)

/-- The stream written by encoding the messages one after another. -/
def encodeAll : List α → Except String Bytes
  | [] => .ok []
  | v :: vs => do
    let record ← encode toProto marshal v
    let rest ← encodeAll vs
    pure (record ++ rest)

end Encoder

/-! ## Readers and the decoder -/

/--
An io.Reader over a byte stream that hands out at most limit bytes a Read, as
bufio and the group reader do at a buffer or file boundary; with none it reads
as much as asked, as bytes.Reader does.
-/
structure Reader where
  rest : Bytes
  limit : Option Nat

/-- One Read into a buffer of n bytes: what it read and the reader after, or none for io.EOF. -/
def Reader.read (rd : Reader) (n : Nat) : Option (Bytes × Reader) :=
  if rd.rest = [] then none
  else
    let count := rd.limit.elim n (min n)
    some (rd.rest.take count, { rd with rest := rd.rest.drop count })

/-- The buffer make([]byte, n) after a Read that filled its first bytes with got. -/
def fill (n : Nat) (got : Bytes) : Bytes :=
  got ++ List.replicate (n - got.length) 0

/-- Why Decode raised a DataCorruptionError. -/
inductive Corruption
  | lengthRead
  | lengthExceeded (length : UInt32)
  | dataRead (read wanted : Nat)
  | checksumMismatch (read actual : UInt32)
  | decodeFailed (cause : String)
  | convertFailed (cause : String)
  deriving DecidableEq, Repr

inductive DecodeError
  | eof
  | dataCorruption (cause : Corruption)
  deriving DecidableEq, Repr

section Decoder

variable {α β : Type} (unmarshal : Bytes → Except String β) (fromProto : β → Except String α)

/--
WALDecoder.Decode: the next message and the reader after it, reading the
checksum, the length and the payload with one Read each; unmarshal is
proto.Unmarshal and fromProto is WALFromProto with the time.
-/
def decode (rd : Reader) : Except DecodeError α × Reader :=
  match rd.read 4 with
  | none => (.error .eof, rd)
  | some (b, rd) =>
    let crc := uint32 (fill 4 b)
    match rd.read 4 with
    | none => (.error (.dataCorruption .lengthRead), rd)
    | some (b, rd) =>
      let length := uint32 (fill 4 b)
      if length.toNat > maxMsgSizeBytes then (.error (.dataCorruption (.lengthExceeded length)), rd)
      else
        match rd.read length.toNat with
        | none => (.error (.dataCorruption (.dataRead 0 length.toNat)), rd)
        | some (got, rd) =>
          let data := fill length.toNat got
          let actualCRC := checksum data
          if actualCRC ≠ crc then (.error (.dataCorruption (.checksumMismatch crc actualCRC)), rd)
          else
            match unmarshal data with
            | .error e => (.error (.dataCorruption (.decodeFailed e)), rd)
            | .ok res =>
              match fromProto res with
              | .error e => (.error (.dataCorruption (.convertFailed e)), rd)
              | .ok walMsg => (.ok walMsg, rd)

/-- The results of n Decode calls in a row on one decoder. -/
def decodes : Nat → Reader → List (Except DecodeError α)
  | 0, _ => []
  | n + 1, rd => (decode unmarshal fromProto rd).1 :: decodes n (decode unmarshal fromProto rd).2

end Decoder

/-! ## Round trip through a reader that fills its buffers -/

theorem fill_of_length {n : Nat} {got : Bytes} (full : got.length = n) : fill n got = got := by
  simp [fill, full]

theorem toUInt32_toNat_of_le {n : Nat} (fits : n ≤ maxMsgSizeBytes) : n.toUInt32.toNat = n :=
  UInt32.toNat_ofNat_of_lt' (lt_of_le_of_lt fits (by decide))

/-- A Read that the reader's limit does not cut short returns the whole buffer. -/
theorem Reader.read_append {bytes rest : Bytes} {limit : Option Nat} {n : Nat}
    (nonempty : bytes ≠ []) (length : bytes.length = n) (fills : ∀ c, limit = some c → n ≤ c) :
    Reader.read ⟨bytes ++ rest, limit⟩ n = some (bytes, ⟨rest, limit⟩) := by
  have count : limit.elim n (min n) = n := by
    cases limit with
    | none => rfl
    | some c => exact min_eq_left (fills c rfl)
  simp only [Reader.read, List.append_eq_nil_iff, nonempty, false_and, if_false, count]
  subst length
  simp

section Decoder

variable {α β : Type} (unmarshal : Bytes → Except String β) (fromProto : β → Except String α)

/-- Decode reads a record back, whatever follows it, through a reader that fills its buffers. -/
theorem decode_record {data rest : Bytes} {limit : Option Nat} {res : β} {v : α}
    (fills : ∀ c, limit = some c → maxMsgSizeBytes ≤ c) (nonempty : data ≠ [])
    (fits : data.length ≤ maxMsgSizeBytes) (decoded : unmarshal data = .ok res)
    (converted : fromProto res = .ok v) :
    decode unmarshal fromProto
        ⟨putUint32 (checksum data) ++ (putUint32 data.length.toUInt32 ++ (data ++ rest)), limit⟩ =
      (.ok v, ⟨rest, limit⟩) := by
  have header : ∀ c, limit = some c → 4 ≤ c :=
    fun c limited => le_trans (by decide) (fills c limited)
  have payload : ∀ c, limit = some c → data.length ≤ c :=
    fun c limited => le_trans fits (fills c limited)
  unfold decode
  rw [Reader.read_append (by simp [putUint32]) (length_putUint32 _) header]
  dsimp only
  rw [Reader.read_append (by simp [putUint32]) (length_putUint32 _) header]
  dsimp only
  simp only [fill_of_length (length_putUint32 _), uint32_putUint32, toUInt32_toNat_of_le fits,
    gt_iff_lt, not_lt.mpr fits, if_false]
  rw [Reader.read_append nonempty rfl payload]
  simp [fill_of_length, decoded, converted]

/-- Decoding an exhausted stream gives io.EOF. -/
@[simp] theorem decode_nil (limit : Option Nat) :
    decode unmarshal fromProto (⟨[], limit⟩ : Reader) = (.error .eof, ⟨[], limit⟩) :=
  rfl

end Decoder

section RoundTrip

variable {α β : Type} (toProto : α → Except String β) (marshal : β → Bytes)
  (unmarshal : Bytes → Except String β) (fromProto : β → Except String α)

/--
A message that the claim admits: WALToProto accepts it, its payload is not
empty and fits maxMsgSizeBytes, and proto.Unmarshal then WALFromProto bring the
message itself back from the payload.
-/
def RoundTrips (v : α) : Prop :=
  ∃ pb res, toProto v = .ok pb ∧ marshal pb ≠ [] ∧ (marshal pb).length ≤ maxMsgSizeBytes ∧
    unmarshal (marshal pb) = .ok res ∧ fromProto res = .ok v

theorem encode_eq {v : α} {pb : β} (converted : toProto v = .ok pb)
    (fits : (marshal pb).length ≤ maxMsgSizeBytes) :
    encode toProto marshal v =
      .ok (putUint32 (checksum (marshal pb)) ++
        (putUint32 (marshal pb).length.toUInt32 ++ marshal pb)) := by
  have length : (marshal pb).length.toUInt32.toNat = (marshal pb).length := toUInt32_toNat_of_le fits
  simp only [encode, converted, bind, Except.bind, length, gt_iff_lt, not_lt.mpr fits, if_false,
    List.take_length, List.append_assoc]
  rfl

/--
Through a reader that never cuts a Read short, decoding the stream written for
admitted messages gives the messages back in order, then io.EOF.
-/
theorem decodes_encodeAll {limit : Option Nat} (fills : ∀ c, limit = some c → maxMsgSizeBytes ≤ c) :
    ∀ (vs : List α) (stream : Bytes), (∀ v ∈ vs, RoundTrips toProto marshal unmarshal fromProto v) →
      encodeAll toProto marshal vs = .ok stream →
      decodes unmarshal fromProto (vs.length + 1) ⟨stream, limit⟩ = vs.map .ok ++ [.error .eof] := by
  intro vs
  induction vs with
  | nil =>
      intro stream _ encoded
      cases encoded
      rfl
  | cons v vs inductionHypothesis =>
      intro stream admitted encoded
      obtain ⟨pb, res, converted, nonempty, fits, decoded, restored⟩ :=
        admitted v List.mem_cons_self
      obtain ⟨rest, encodedRest, rfl⟩ : ∃ rest, encodeAll toProto marshal vs = .ok rest ∧
          stream = putUint32 (checksum (marshal pb)) ++
            (putUint32 (marshal pb).length.toUInt32 ++ (marshal pb ++ rest)) := by
        simp only [encodeAll, encode_eq toProto marshal converted fits, bind, Except.bind] at encoded
        cases written : encodeAll toProto marshal vs with
        | error e =>
            rw [written] at encoded
            cases encoded
        | ok rest =>
            rw [written] at encoded
            cases encoded
            exact ⟨rest, rfl, by simp⟩
      have restDecoded := inductionHypothesis rest
        (fun w member => admitted w (List.mem_cons_of_mem v member)) encodedRest
      rw [List.length_cons, decodes, decode_record unmarshal fromProto fills nonempty fits decoded restored]
      exact congrArg (List.cons (.ok v)) restDecoded

end RoundTrip

/-! ## A record that a one-byte reader misreads -/

/-- encodeVarintWal, over the value as a natural number. -/
def encodeVarint (v : Nat) : Bytes :=
  if v < 128 then [v.toUInt8] else (v % 128 + 128).toUInt8 :: encodeVarint (v / 128)
termination_by v
decreasing_by omega

/-- A time as StdTimeMarshalTo writes it: a google.protobuf.Timestamp. -/
structure Timestamp where
  seconds : Int64
  nanos : Int32

/-- The Timestamp's two fields, each left out when zero. -/
def Timestamp.marshal (t : Timestamp) : Bytes :=
  (if t.seconds = 0 then [] else 0x08 :: encodeVarint t.seconds.toUInt64.toNat) ++
    (if t.nanos = 0 then [] else 0x10 :: encodeVarint t.nanos.toInt64.toUInt64.toNat)

/-- The EndHeightMessage written at the end of each height. -/
structure EndHeightMessage where
  height : Int64

/-- A timed WAL message; of the payloads only EndHeightMessage is modelled. -/
structure TimedWALMessage where
  time : Timestamp
  msg : EndHeightMessage

/--
WALToProto and proto.Marshal of a timed message, in the order the generated
MarshalToSizedBuffer lays the fields out: the time as field 1, then as field 2
the WALMessage holding EndHeight{Height} as its field 4.
-/
def marshalTimedWALMessage (v : TimedWALMessage) : Bytes :=
  let endHeight := if v.msg.height = 0 then [] else 0x08 :: encodeVarint v.msg.height.toUInt64.toNat
  let walMessage := 0x22 :: encodeVarint endHeight.length ++ endHeight
  let time := v.time.marshal
  0x0a :: encodeVarint time.length ++ time ++ 0x12 :: encodeVarint walMessage.length ++ walMessage

/-- The end of height one, written at the Unix epoch. -/
def epochEndHeight : TimedWALMessage := ⟨⟨0, 0⟩, ⟨1⟩⟩

theorem one_byte_reader_reports_corruption {β : Type} (unmarshal : Bytes → Except String β)
    (fromProto : β → Except String TimedWALMessage) :
    encodeAll Except.ok marshalTimedWALMessage [epochEndHeight] =
        .ok [0xef, 0xfc, 0x47, 0xef, 0, 0, 0, 8, 0x0a, 0x00, 0x12, 0x04, 0x22, 0x02, 0x08, 0x01] ∧
      (decode unmarshal fromProto
          ⟨[0xef, 0xfc, 0x47, 0xef, 0, 0, 0, 8, 0x0a, 0x00, 0x12, 0x04, 0x22, 0x02, 0x08, 0x01], some 1⟩).1 =
        .error (.dataCorruption (.lengthExceeded 0xFC000000)) :=
  ⟨by decide +kernel, rfl⟩

end Kardia.Wal
