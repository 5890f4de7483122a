import TscServer.Spec.ContentCoding

/-!
# Compressing bodies

The loop over the blocks appends exactly what each call of `deflate` writes, so that a compressor returns
what zlib makes of the bytes it was given. These are the whole body below four gigabytes.
-/

namespace TscServer.Proof
open Lib Model Spec BodyCompression

/-! ## The loop over the blocks -/

section Loop
variable {zlib : Zlib}

theorem totalOut_of_deflate {zs zs' : ZStream zlib} {ret : DeflateResult} {block : Bytes}
    (step : deflate zlib zs = (ret, block, zs')) : zs'.totalOut = zs.totalOut + block.length := by
  rw [deflate, Prod.mk.injEq, Prod.mk.injEq] at step
  obtain ⟨-, rfl, rfl⟩ := step
  rfl

theorem deflateLoop_succ (fuel : Nat) (l : BlockLoop zlib) :
    deflateLoop zlib (fuel + 1) l.zs l.outbuffer l.outstring =
      if (deflateRound zlib l).1 = .ok then
        deflateLoop zlib fuel (deflateRound zlib l).2.zs (deflateRound zlib l).2.outbuffer
          (deflateRound zlib l).2.outstring
      else some ((deflateRound zlib l).1, (deflateRound zlib l).2.outstring) := rfl

theorem deflateRound_eq {l : BlockLoop zlib} {zs' : ZStream zlib} {ret : DeflateResult} {block : Bytes}
    (step : deflate zlib l.zs = (ret, block, zs')) (size : l.outstring.length = l.zs.totalOut) :
    deflateRound zlib l =
      (ret, { zs := zs', outbuffer := block ++ l.outbuffer.drop block.length
              outstring := l.outstring ++ block }) := by
  have total := totalOut_of_deflate step
  have appended : (if l.outstring.length < zs'.totalOut then
      l.outstring ++ (block ++ l.outbuffer.drop block.length).take (zs'.totalOut - l.outstring.length)
      else l.outstring) = l.outstring ++ block := by
    rw [total, size, Nat.add_sub_cancel_left, List.take_left]
    split
    · rfl
    · have empty : block = [] := List.length_eq_zero_iff.mp (by omega)
      rw [empty, List.append_nil]
  rw [deflateRound, step]
  simp only [appended]

theorem size_deflateRound {l : BlockLoop zlib} (size : l.outstring.length = l.zs.totalOut) :
    (deflateRound zlib l).2.outstring.length = (deflateRound zlib l).2.zs.totalOut := by
  obtain ⟨ret, block, zs', step⟩ : ∃ ret block zs', deflate zlib l.zs = (ret, block, zs') := ⟨_, _, _, rfl⟩
  rw [deflateRound_eq step size, List.length_append, size, totalOut_of_deflate step]

theorem size_afterRounds {l : BlockLoop zlib} (size : l.outstring.length = l.zs.totalOut) (n : Nat) :
    (afterRounds zlib n l).outstring.length = (afterRounds zlib n l).zs.totalOut := by
  induction n with
  | zero => exact size
  | succ n ih =>
      rw [afterRounds, Function.iterate_succ_apply']
      exact size_deflateRound ih

theorem deflateLoop_rounds {fuel : Nat} {l : BlockLoop zlib} {ret : DeflateResult} {outstring : Bytes}
    (ends : deflateLoop zlib fuel l.zs l.outbuffer l.outstring = some (ret, outstring)) :
    ∃ n, ret = (deflateRound zlib (afterRounds zlib n l)).1 ∧ ret ≠ .ok ∧
      outstring = (afterRounds zlib (n + 1) l).outstring ∧
      ∀ m < n, (deflateRound zlib (afterRounds zlib m l)).1 = .ok := by
  induction fuel generalizing l with
  | zero => cases ends
  | succ fuel ih =>
      rw [deflateLoop_succ] at ends
      by_cases goes : (deflateRound zlib l).1 = .ok
      · rw [if_pos goes] at ends
        obtain ⟨n, last, stops, whole, before⟩ := ih ends
        refine ⟨n + 1, last, stops, whole, fun m earlier => ?_⟩
        cases m with
        | zero => exact goes
        | succ m => exact before m (Nat.lt_of_succ_lt_succ earlier)
      · rw [if_neg goes] at ends
        obtain ⟨rfl, rfl⟩ := Prod.mk.inj (Option.some.inj ends)
        exact ⟨0, rfl, goes, rfl, fun m earlier => absurd earlier (Nat.not_lt_zero m)⟩

/-- By induction on the calls of `deflate`. -/
theorem deflateLoop_of_deflates {zs : ZStream zlib} {out : Bytes} (deflates : Deflates zlib zs out) :
    ∃ bound, ∀ fuel, bound < fuel → ∀ outbuffer outstring, outstring.length = zs.totalOut →
      deflateLoop zlib fuel zs outbuffer outstring = some (.streamEnd, outstring ++ out) := by
  induction deflates with
  | @last zs zs' block step =>
      refine ⟨0, fun fuel enough outbuffer outstring size => ?_⟩
      obtain ⟨fuel, rfl⟩ := Nat.exists_eq_succ_of_ne_zero (Nat.ne_of_gt enough)
      rw [deflateLoop_succ fuel ⟨zs, outbuffer, outstring⟩, deflateRound_eq step size,
        if_neg (by simp)]
  | @more zs zs' block rest step _ ih =>
      obtain ⟨bound, ends⟩ := ih
      refine ⟨bound + 1, fun fuel enough outbuffer outstring size => ?_⟩
      obtain ⟨fuel, rfl⟩ := Nat.exists_eq_succ_of_ne_zero (Nat.ne_of_gt (Nat.zero_lt_of_lt enough))
      have size' : (outstring ++ block).length = zs'.totalOut := by
        rw [List.length_append, size, totalOut_of_deflate step]
      rw [deflateLoop_succ fuel ⟨zs, outbuffer, outstring⟩, deflateRound_eq step size, if_pos rfl,
        ends fuel (Nat.lt_of_succ_lt_succ enough) _ _ size', List.append_assoc]

end Loop

/-! ## The compressors -/

section Compress
variable {zlib : Zlib} {setup : DeflateSetup} {state : zlib.State} {body : Bytes}

theorem compress_eq (fuel : Nat) (started : zlib.init setup = some state) :
    compress zlib fuel setup body =
      match deflateLoop zlib fuel (setInput zlib state body) [] [] with
      | none => Proc.spin
      | some (ret, outstring) =>
          if ret = .streamEnd then pure outstring else Proc.throw (.deflate ret) := by
  rw [compress, started, Proc.ofOption_some, Proc.pure_bind]
  rfl

theorem compress_of_deflates {out : Bytes} (started : zlib.init setup = some state)
    (deflates : Deflates zlib (setInput zlib state body) out) :
    ∃ bound, ∀ fuel, bound < fuel → compress zlib fuel setup body = pure out := by
  obtain ⟨bound, ends⟩ := deflateLoop_of_deflates deflates
  refine ⟨bound, fun fuel enough => ?_⟩
  rw [compress_eq fuel started, ends fuel enough [] [] rfl]
  rfl

theorem setInput_short (short : body.length < 2 ^ 32) :
    setInput zlib state body = { state, input := body } := by
  rw [setInput, Nat.mod_eq_of_lt short, List.take_length]

theorem compress_of_documented {decode : StreamFormat → Bytes → Option Bytes}
    (documented : Documented zlib decode body) (short : body.length < 2 ^ 32)
    (valid : ValidSetup setup) : ∃ out bound, decode (streamFormat setup) out = some body ∧
      ∀ fuel, bound < fuel → compress zlib fuel setup body = pure out := by
  obtain ⟨state, started⟩ := Option.isSome_iff_exists.mp (documented.starts setup valid)
  obtain ⟨out, deflates⟩ := documented.ends setup state started
  have decodes := documented.decodes setup state out started deflates
  rw [← setInput_short short] at deflates
  obtain ⟨bound, returns⟩ := compress_of_deflates started deflates
  exact ⟨out, bound, decodes, returns⟩

theorem deflates_of_blocks {zs : ZStream zlib} {blocks : List Bytes}
    (calls : DeflateBlocks zlib zs blocks) : Deflates zlib zs blocks.flatten := by
  induction calls with
  | @last zs zs' block step _ =>
      rw [List.flatten_singleton]
      exact .last step
  | more step _ _ ih => exact .more step ih

theorem collectsAll_of_short (short : body.length < 2 ^ 32)
    {compressor : Nat → Bytes → Proc CompressionError Response Bytes}
    (same : ∀ fuel, compressor fuel body = compress zlib fuel setup body) :
    CollectsAll zlib setup compressor body where
  collects state blocks started calls := by
    have deflates := deflates_of_blocks calls
    rw [← setInput_short short] at deflates
    obtain ⟨bound, returns⟩ := compress_of_deflates started deflates
    exact ⟨bound, fun fuel enough => (same fuel).trans (returns fuel enough)⟩
  sizes _ n := size_afterRounds rfl n

end Compress

/-! ## Long bodies -/

def measuringZlib (n : Nat) : Zlib where
  State := Unit
  init _ := some ()
  deflate _ input _ := (.streamEnd, [if input.length = n then 1 else 0], (), [])

theorem measuringZlib_blocks (n : Nat) (input : Bytes) :
    DeflateBlocks (measuringZlib n) { state := (), input } [[if input.length = n then 1 else 0]] :=
  .last rfl (by simp [outbufferSize])

theorem short_of_collectsAll {body : Bytes} (all : CompressorsCollectAll body) : body.length < 2 ^ 32 := by
  by_contra long
  obtain ⟨gzip, -⟩ := all (measuringZlib body.length)
  obtain ⟨bound, whole⟩ := gzip.collects () _ rfl (measuringZlib_blocks body.length body)
  have deflates : Deflates (measuringZlib body.length) (setInput (measuringZlib body.length) () body) _ :=
    deflates_of_blocks (measuringZlib_blocks body.length _)
  obtain ⟨bound', part⟩ : ∃ bound', ∀ fuel, bound' < fuel →
      compressGzip (measuringZlib body.length) fuel body = pure _ := compress_of_deflates rfl deflates
  have fewer : (body.take (body.length % 2 ^ 32)).length ≠ body.length := by
    rw [List.length_take]
    have bound := Nat.mod_lt body.length (Nat.two_pow_pos 32)
    omega
  have same := (whole (bound + bound' + 1) (by omega)).symm.trans (part (bound + bound' + 1) (by omega))
  rw [if_pos rfl, if_neg fewer] at same
  cases congrArg (fun proc => proc.run {}) same

/-- Every byte of the body goes through the compressors, whatever zlib does, exactly as long as `avail_in`
holds the length of the body. -/
theorem compressorsCollectAll_iff (body : Bytes) : CompressorsCollectAll body ↔ body.length < 2 ^ 32 := by
  constructor
  · exact short_of_collectsAll
  · intro short zlib
    exact ⟨collectsAll_of_short short fun _ => rfl, collectsAll_of_short short fun _ => rfl⟩

theorem not_compressorsCollectAll : ¬ CompressorsCollectAll (List.replicate (2 ^ 32) 97) := by
  intro all
  have short := short_of_collectsAll all
  rw [List.length_replicate] at short
  exact absurd short (Nat.lt_irrefl _)

end TscServer.Proof
