import TscServer.Model.Connection

/-!
# Compressing bodies

`CompressGzip` and `CompressDeflate` of `body_compression.cc` over the zlib they are linked with, and
`Connection::compress_payload` with them. `deflate` is always called with `Z_FINISH`.
-/

namespace TscServer.Model
open Lib

structure DeflateSetup where
  level : Nat
  windowBits : Nat
  memLevel : Nat
deriving DecidableEq, Repr

-- `deflateInit`
def DeflateSetup.default (level : Nat) : DeflateSetup := { level, windowBits := 15, memLevel := 8 }

inductive DeflateResult where
  | ok
  | streamEnd
  | error (code : Int)
deriving DecidableEq, Repr

/-- `init` fails when it does not return `Z_OK`. `deflate` is given the bytes that it has not read yet and
the size of the output buffer; what it writes there comes back, with the bytes that it leaves unread. -/
structure Zlib where
  State : Type
  init : DeflateSetup → Option State
  deflate : State → Bytes → Nat → DeflateResult × Bytes × State × Bytes

structure ZStream (zlib : Zlib) where
  state : zlib.State
  input : Bytes
  totalOut : Nat := 0

inductive CompressionError where
  | init
  | deflate (ret : DeflateResult)
deriving DecidableEq, Repr

namespace BodyCompression
variable (zlib : Zlib)

def outbufferSize : Nat := 32768

-- a call of `deflate`, and the bytes that it wrote
def deflate (zs : ZStream zlib) : DeflateResult × Bytes × ZStream zlib :=
  let (ret, block, state, input) := zlib.deflate zs.state zs.input outbufferSize
  (ret, block, { state, input, totalOut := zs.totalOut + block.length })

/-- The loop over the blocks. Of the output buffer only what was written to it is ever read. -/
def deflateLoop : Nat → ZStream zlib → Bytes → Bytes → Option (DeflateResult × Bytes)
  | 0, _, _, _ => none
  | fuel + 1, zs, outbuffer, outstring =>
      let (ret, block, zs) := deflate zlib zs
      let outbuffer := block ++ outbuffer.drop block.length
      let outstring :=
        if outstring.length < zs.totalOut then outstring ++ outbuffer.take (zs.totalOut - outstring.length)
        else outstring
      if ret = .ok then deflateLoop fuel zs outbuffer outstring else some (ret, outstring)

structure BlockLoop where
  zs : ZStream zlib
  outbuffer : Bytes := []
  outstring : Bytes := []

def deflateRound (l : BlockLoop zlib) : DeflateResult × BlockLoop zlib :=
  let (ret, block, zs) := deflate zlib l.zs
  let outbuffer := block ++ l.outbuffer.drop block.length
  let outstring :=
    if l.outstring.length < zs.totalOut then
      l.outstring ++ outbuffer.take (zs.totalOut - l.outstring.length)
    else l.outstring
  (ret, { zs, outbuffer, outstring })

def setInput (state : zlib.State) (originalBody : Bytes) : ZStream zlib :=
  { state, input := originalBody.take (originalBody.length % 2 ^ 32) }

/-- Both compressors after their set-up. `avail_in` has 32 bits. -/
def compress (fuel : Nat) (setup : DeflateSetup) (originalBody : Bytes) :
    Proc CompressionError Response Bytes := do
  let state ← Proc.ofOption .init (zlib.init setup)
  let zs : ZStream zlib := { state, input := originalBody.take (originalBody.length % 2 ^ 32) }
  match deflateLoop zlib fuel zs [] [] with
  | none => Proc.spin
  | some (ret, outstring) =>
      if ret = .streamEnd then return outstring else Proc.throw (.deflate ret)

def compressGzip (fuel : Nat) (originalBody : Bytes) : Proc CompressionError Response Bytes :=
  compress zlib fuel { level := 9, windowBits := 15 + 16, memLevel := 9 } originalBody

def compressDeflate (fuel : Nat) (originalBody : Bytes) : Proc CompressionError Response Bytes :=
  compress zlib fuel (DeflateSetup.default 9) originalBody

-- one branch of `compress_payload`, on the response of the connection
def replaceBody (encoding : Bytes) (compress : Bytes → Proc CompressionError Response Bytes) :
    Proc CompressionError Response Unit := do
  let original ← Proc.get
  Proc.modify fun response => response.addHeader (bytes "Content-Encoding") encoding
  let compressed ← compress original.body
  Proc.modify fun response => response.setBody compressed
  Proc.modify fun response =>
    response.addHeader (bytes "Content-Length") (toDecimal response.body.length)

def compressPayloadWith (fuel : Nat) (request : Request) : Proc CompressionError Response Unit :=
  let encodingString := request.getHeaderValueByName (bytes "Accept-Encoding")
  if encodingString = [] then return ()
  else
    let encodeFormat := (encodingString.filter (· != 32)).splitOn 44
    if encodeFormat.any (· = bytes "gzip") then replaceBody (bytes "gzip") (compressGzip zlib fuel)
    else if encodeFormat.any (· = bytes "deflate") then
      replaceBody (bytes "deflate") (compressDeflate zlib fuel)
    else return ()

end BodyCompression
end TscServer.Model
