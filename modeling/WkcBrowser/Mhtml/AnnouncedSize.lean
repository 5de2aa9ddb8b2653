import Mathlib.Data.Multiset.UnionInter
import WkcBrowser.Mhtml.BufferSize
import WkcBrowser.Mhtml.ChunkIndependence

/-! The size and the number of parts announced for an archive, against what is written. All three
passes walk the same tree, but each has its own rule for what it passes over, so the announced size
is right only if the parts it adds up weigh as much as those written. -/

namespace WkcBrowser.Mhtml
open Wtf Lib

section
variable (isSupportedImageMIMEType : Text → Bool) (archive : MHTMLWebArchive)

end

section
variable {isSupportedImageMIMEType : Text → Bool} {archive : MHTMLWebArchive}

end

end WkcBrowser.Mhtml
