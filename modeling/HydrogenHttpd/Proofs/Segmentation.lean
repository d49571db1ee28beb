import HydrogenHttpd.Proofs.RequestReading
import HydrogenHttpd.Ref.Server

/-!
# A request does not depend on how the network cuts it

The client decides what it sends, the network where the reads end. Of
everything `handleClientStream` does only the readers see the difference, and
the last of them to see it is `readHeadersOnly`, which leaves more or less of
the body in `leftover`. The loops behind it make up for that, whichever of the
two reads the body.
-/

namespace HydrogenHttpd.Ref

open Base Spec

section SameRest

variable {s₁ s₂ : Connection} {l₁ l₂ : Bytes} (hrest : l₁ ++ s₁.pending = l₂ ++ s₂.pending)
  (hfail : s₁.failure = s₂.failure)

include hrest hfail

theorem readBodyRest_congr {chunk : Nat} (hchunk : 0 < chunk) (failure : String)
    (contentLength : Nat) :
    readBodyRest chunk failure s₁ l₁ contentLength =
      readBodyRest chunk failure s₂ l₂ contentLength := by
  rw [readBodyRest_spec hchunk, readBodyRest_spec hchunk, hrest, hfail]

theorem completeRequestInMemory_congr (config : ServerConfig) (headerPart : Bytes) :
    completeRequestInMemory s₁ config { headerPart := headerPart, leftover := l₁ } =
      completeRequestInMemory s₂ config { headerPart := headerPart, leftover := l₂ } := by
  simp only [completeRequestInMemory,
    readBodyRest_congr hrest hfail (show 0 < 512 by omega) "failed to read request body: "]

theorem spoolUpload_congr (env : ServerEnv) (config : ServerConfig) (res : HttpResponse)
    (req : HttpRequest) (contentType : Bytes) (w : World) :
    spoolUpload env config res s₁ l₁ req contentType w =
      spoolUpload env config res s₂ l₂ req contentType w := by
  simp only [spoolUpload,
    readBodyRest_congr hrest hfail (show 0 < 8192 by omega) "failed to stream upload body: "]

theorem handleHeaders_congr (env : ServerEnv) (config : ServerConfig) (tls : Bool)
    (clientIp headerPart : Bytes) (w : World) :
    handleHeaders env config tls clientIp s₁ { headerPart := headerPart, leftover := l₁ } w =
      handleHeaders env config tls clientIp s₂ { headerPart := headerPart, leftover := l₂ } w := by
  have hupload : ∀ req w, handleStreamedUpload env config tls clientIp s₁ l₁ req w
      = handleStreamedUpload env config tls clientIp s₂ l₂ req w := fun req w => by
    simp only [handleStreamedUpload, spoolUpload_congr hrest hfail]
  simp only [handleHeaders, hupload, completeRequestInMemory_congr hrest hfail]

end SameRest

/-- Whatever a client sends, and however it ends, two ways of cutting it lead
to the same response or exception and leave the same world: the same request
handed to `makeResponse`, the same spool file handed to the upload parser. -/
theorem segmentation_independent (env : ServerEnv) (config : ServerConfig) (tls : Bool)
    (clientIp sent : Bytes) (broken : Option Bytes) (cuts₁ cuts₂ : List Nat) (w : World) :
    handleClientStream env config tls clientIp
        { pending := sent, cuts := cuts₁, failure := broken } w =
      handleClientStream env config tls clientIp
        { pending := sent, cuts := cuts₂, failure := broken } w := by
  have h₁ := readHeadersOnly_spec { pending := sent, cuts := cuts₁, failure := broken } config
  have h₂ := readHeadersOnly_spec { pending := sent, cuts := cuts₂, failure := broken } config
  simp only [handleClientStream]
  cases hfind : find? crlf2 (sent.take config.maxRequestBytes) with
  | none =>
      simp only [hfind] at h₁ h₂
      split
      · next e _ he =>
          rw [he] at h₁
          split
          · next e' _ he' =>
              rw [he'] at h₂
              rw [Except.error.inj h₁, Except.error.inj h₂]
              rfl
          · next he' => rw [he'] at h₂; cases h₂
      · next he => rw [he] at h₁; cases h₁
  | some i =>
      simp only [hfind] at h₁ h₂
      obtain ⟨l₁, s₁, hread₁, hrest₁, hfail₁⟩ := h₁
      obtain ⟨l₂, s₂, hread₂, hrest₂, hfail₂⟩ := h₂
      rw [hread₁, hread₂]
      exact handleHeaders_congr (hrest₁.trans hrest₂.symm) (hfail₁.trans hfail₂.symm) _ _ _ _ _ _

end HydrogenHttpd.Ref
