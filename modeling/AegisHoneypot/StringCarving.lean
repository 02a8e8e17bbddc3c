import AegisHoneypot.IocAgreement
import AegisHoneypot.Library.Splitting

namespace AegisHoneypot.StringCarving
open Utf8Text Forensics IocAgreement Splitting

-- `is_ascii_graphic` and the blank are kept together, every other byte cuts.
def isSeparator (byte : UInt8) : Bool := !isPrintable byte

theorem piece_printable (cut : Cut isSeparator data pieces) (member : piece ∈ pieces) : Printable piece := by
  intro byte inside
  have kept := cut.solid member byte inside
  simpa [isSeparator] using kept

theorem cut_runs (data : Bytes) : Cut isSeparator data (runs data) := cut_splitOnP _ _

-- The text of each string is the piece itself, byte for byte.
theorem carved_bytes (data : Bytes) (minLen : Nat) :
    (extractStrings data minLen).map encode = (runs data).filter (fun piece => decide (minLen ≤ piece.length)) := by
  rw [extractStrings_runs,List.map_map]
  refine (List.map_congr_left ?_).trans (List.map_id _)
  intro piece kept
  exact printable_bytes piece (piece_printable (cut_runs data) (List.mem_of_mem_filter kept))

theorem carved_exact (data : Bytes) (minLen : Nat) :
    ∃ pieces, Cut isSeparator data pieces ∧ (∀ other, Cut isSeparator data other → other = pieces) ∧
      (extractStrings data minLen).map encode = pieces.filter (fun piece => decide (minLen ≤ piece.length)) :=
  ⟨runs data,cut_runs data,fun _ cut => cut.unique,carved_bytes data minLen⟩

example : (extractStrings [0x61,0x62,0,0,0x63] 0).map encode = [[0x61,0x62],[],[0x63]] := by decide

end AegisHoneypot.StringCarving
