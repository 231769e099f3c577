import ObjectFlush.Digest.Blake3

/-!
Content digests: of a byte string, and of the parts of an object by their tags.
-/

namespace ObjectFlush.Digest

/-- The tag of a byte string: its digest in hexadecimal. -/
def tag (data : Bytes) : String := (Blake3.hash data).toHex

/-- The bytes of several texts, one after the other. -/
def textBytes (texts : List String) : Bytes := texts.flatMap Bytes.ofString

/-- The digest of a sequence of part tags: of the tags' texts in order, not of the bytes they
stand for. -/
def ofTags (tags : List String) : String := tag (textBytes tags)

end ObjectFlush.Digest
