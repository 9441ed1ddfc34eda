import Deadwood.Text.Bytes

/-! Writing through a buffer: what reaches a file at a time of what is written to it in pieces. -/

namespace Deadwood.Buffer

def room : Nat := 4096

/-- What is written at a time, given what the buffer holds. It is written when it is full and more is to come, and at the
end. A piece that is longer than an empty buffer is written by itself. -/
def flushes (held : Bytes) : List Bytes → List Bytes
  | [] => if held = [] then [] else [held]
  | piece :: pieces =>
    if held.length + piece.length ≤ room then flushes (held ++ piece) pieces
    else if held = [] then piece :: flushes [] pieces
    else
      let rest := piece.drop (room - held.length)
      (held ++ piece.take (room - held.length)) ::
        if rest.length ≤ room then flushes rest pieces else rest :: flushes [] pieces

end Deadwood.Buffer
