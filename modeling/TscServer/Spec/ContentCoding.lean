import TscServer.Model.BodyCompression

/-!
# Content codings

Which coding a request accepts, and what a response in that coding is. A gzip and a zlib stream are told
apart by the window bits that the compressor is set up with.
-/

namespace TscServer.Spec
open Lib Model BodyCompression

inductive StreamFormat where
  | gzip
  | zlib
deriving DecidableEq, Repr

def streamFormat (setup : DeflateSetup) : StreamFormat :=
  if setup.windowBits ≤ 15 then .zlib else .gzip

def ValidSetup (setup : DeflateSetup) : Prop :=
  setup.level ≤ 9 ∧ 1 ≤ setup.memLevel ∧ setup.memLevel ≤ 9 ∧
    (8 ≤ setup.windowBits ∧ setup.windowBits ≤ 15 ∨ 24 ≤ setup.windowBits ∧ setup.windowBits ≤ 31)

inductive ContentCoding where
  | gzip
  | deflate
deriving DecidableEq, Repr

def ContentCoding.name : ContentCoding → Bytes
  | .gzip => bytes "gzip"
  | .deflate => bytes "deflate"

def ContentCoding.format : ContentCoding → StreamFormat
  | .gzip => .gzip
  | .deflate => .zlib

def accepted (r : Request) : List Bytes :=
  ((r.getHeaderValueByName (bytes "Accept-Encoding")).splitOn 44).map fun element => element.filter (· != 32)

structure Negotiated (decode : StreamFormat → Bytes → Option Bytes) (r : Request)
    (before after : Response) : Prop where
  coded : ∀ value, (bytes "Content-Encoding", value) ∈ after.headers →
    ∃ coding : ContentCoding, value = coding.name ∧ coding.name ∈ accepted r ∧
      (ContentCoding.gzip.name ∈ accepted r → coding = .gzip) ∧
      decode coding.format after.body = some before.body
  present : ∀ coding : ContentCoding, coding.name ∈ accepted r →
    ∃ value, (bytes "Content-Encoding", value) ∈ after.headers
  plain : (∀ coding : ContentCoding, coding.name ∉ accepted r) → after = before

/-! ## The calls of `deflate` -/

inductive Deflates (zlib : Zlib) : ZStream zlib → Bytes → Prop
  | last {zs zs' : ZStream zlib} {block : Bytes} : deflate zlib zs = (.streamEnd, block, zs') →
      Deflates zlib zs block
  | more {zs zs' : ZStream zlib} {block rest : Bytes} : deflate zlib zs = (.ok, block, zs') →
      Deflates zlib zs' rest → Deflates zlib zs (block ++ rest)

inductive DeflateBlocks (zlib : Zlib) : ZStream zlib → List Bytes → Prop
  | last {zs zs' : ZStream zlib} {block : Bytes} : deflate zlib zs = (.streamEnd, block, zs') →
      block.length ≤ outbufferSize → DeflateBlocks zlib zs [block]
  | more {zs zs' : ZStream zlib} {block : Bytes} {blocks : List Bytes} :
      deflate zlib zs = (.ok, block, zs') → block.length ≤ outbufferSize →
      DeflateBlocks zlib zs' blocks → DeflateBlocks zlib zs (block :: blocks)

def afterRounds (zlib : Zlib) (n : Nat) (l : BlockLoop zlib) : BlockLoop zlib :=
  (fun l => (deflateRound zlib l).2)^[n] l

/-- The result is what zlib makes of the whole body, block by block, and no round leaves out or repeats
a byte. -/
structure CollectsAll (zlib : Zlib) (setup : DeflateSetup)
    (compressor : Nat → Bytes → Proc CompressionError Response Bytes) (body : Bytes) : Prop where
  collects : ∀ state blocks, zlib.init setup = some state →
    DeflateBlocks zlib { state, input := body } blocks →
    ∃ bound, ∀ fuel, bound < fuel → compressor fuel body = pure blocks.flatten
  sizes : ∀ state n, (afterRounds zlib n { zs := setInput zlib state body }).outstring.length =
    (afterRounds zlib n { zs := setInput zlib state body }).zs.totalOut

def CompressorsCollectAll (body : Bytes) : Prop :=
  ∀ zlib : Zlib,
    CollectsAll zlib { level := 9, windowBits := 15 + 16, memLevel := 9 } (compressGzip zlib) body ∧
      CollectsAll zlib (DeflateSetup.default 9) (compressDeflate zlib) body

/-- What zlib documents of a stream with this input: it can be set up, it ends, and what was written can
be decoded. -/
structure Documented (zlib : Zlib) (decode : StreamFormat → Bytes → Option Bytes) (input : Bytes) :
    Prop where
  starts : ∀ setup, ValidSetup setup → (zlib.init setup).isSome
  ends : ∀ setup state, zlib.init setup = some state → ∃ out, Deflates zlib { state, input } out
  decodes : ∀ setup state out, zlib.init setup = some state → Deflates zlib { state, input } out →
    decode (streamFormat setup) out = some input

end TscServer.Spec
