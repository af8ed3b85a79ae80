/-!
# Decoding options

What the caller may ask of a decode. None of them is needed to read a file: they choose the form of
the samples, the limits, and whether the encoding parameters are kept.
-/

namespace Png

/-- The choices for one decode; the defaults leave every sample as the file has it. -/
structure Options where
  /-- Drop alpha samples and ignore transparency chunks. -/
  suppressAlpha : Bool := false
  /-- Replace palette indices by their colours. -/
  expandPalette : Bool := false
  /-- Spread gray of fewer than eight bits over a byte. -/
  promoteGray : Bool := false
  /-- Write gray with alpha as red, green, blue and alpha. -/
  expandGrayAlpha : Bool := false
  /-- Correct colour samples for the gamma of file, user and display. -/
  correctGamma : Bool := false
  /-- The exponent that the viewer asks for. -/
  userExponent : Float32 := 1.0
  /-- The exponent of the display. -/
  displayExponent : Float32 := 2.2
  /-- Record what an encoder would need to write the file again. -/
  recordEncoding : Bool := false
  /-- The widest image accepted. -/
  maxWidth : Nat := 16384
  /-- The tallest image accepted. -/
  maxHeight : Nat := 16384
  /-- Compare the checksum of the image data. -/
  verifyChecksum : Bool := true

namespace Options

/-- Correction on, with the two exponents given. -/
def withGamma (o : Options) (user display : Float32) : Options :=
  { o with correctGamma := true, userExponent := user, displayExponent := display }

/-- Whether gray below eight bits becomes eight bits wide: on request, and always when correcting,
since corrected levels do not fit the stored depth. -/
def gray8 (o : Options) : Bool :=
  o.promoteGray || o.correctGamma

end Options

end Png
