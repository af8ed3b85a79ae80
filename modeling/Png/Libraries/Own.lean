import Png.Error
import Png.Libraries
import Png.Zlib.Stream

/-!
# The libraries of the command

Streams are inflated by `Zlib.decompress`, and dates are those of the Gregorian calendar.
-/

namespace Png

/-- No stream is inflated to more bytes than are allowed. -/
theorem Zlib.length_decompress {verify : Bool} {stream out : List UInt8}
    (h : decompress verify stream = .ok out) : out.length ≤ outputLimit := by
  unfold decompress at h
  split at h
  · split at h
    · cases h
    · simp only [bind_eq_ok_iff, Prod.exists] at h
      obtain ⟨_, -, inflated, rest, -, _, hlength, h⟩ := h
      have hout : inflated.toList = out := by
        split at h
        · obtain ⟨_, -, h⟩ := bind_eq_ok_iff.1 h
          exact Except.ok.inj h
        · exact Except.ok.inj h
      rw [← hout, Array.length_toList]
      unfold checkLength at hlength
      split at hlength
      · assumption
      · cases hlength
  · cases h

instance : Libraries where
  inflate := Zlib.decompress
  length_inflate h := Nat.lt_of_le_of_lt (Zlib.length_decompress h) (by decide)
  isDate := DateTime.isValid

end Png
