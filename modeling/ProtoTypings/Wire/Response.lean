import ProtoTypings.Generation
import ProtoTypings.Wire.Value

/-!
# Responses on the wire

Responses as message content. All parts of a response are written, even empty ones; in a response
that is read, a part that is missing is taken as empty.
-/

namespace ProtoTypings

open Wire

namespace GeneratedFile

def toContent (f : GeneratedFile) : Content := [(1, .text f.name), (15, .text f.content)]

def ofContent (c : Content) : GeneratedFile where
  name := (c.text? 1).getD ""
  content := (c.text? 15).getD ""

end GeneratedFile

namespace Response

def toContent (r : Response) : Content :=
  Content.one 1 .text r.error? ++ [(2, .number r.features.toNat)] ++
    Content.each 15 (.message ·.toContent) r.files

def ofContent (c : Content) : Response where
  error? := c.text? 1
  features := .ofNat ((c.number? 2).getD 0)
  files := (c.parts 15).map .ofContent

def encode (r : Response) : List UInt8 := r.toContent.encode

def decode (bs : List UInt8) : Option Response := (Content.decode 100 .response bs).map .ofContent

end Response

end ProtoTypings
