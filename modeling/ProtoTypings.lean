import ProtoTypings.Main
import ProtoTypings.Typings.Json
import ProtoTypings.Proofs.Index
import ProtoTypings.Proofs.Projection
import ProtoTypings.Proofs.Import
import ProtoTypings.Proofs.Reference
import ProtoTypings.Proofs.Generation
import ProtoTypings.Proofs.FileSet
import ProtoTypings.Proofs.NeededImports
import ProtoTypings.Proofs.DocBlock
import ProtoTypings.Proofs.BoundNames
import ProtoTypings.Proofs.Specifier
import ProtoTypings.Proofs.Session
import ProtoTypings.Proofs.Earliest
import ProtoTypings.Proofs.SingleUse
import ProtoTypings.Proofs.Fault
import ProtoTypings.Proofs.FirstClash
import ProtoTypings.Proofs.FirstFault
import ProtoTypings.Proofs.Shape
import ProtoTypings.Proofs.Comment
import ProtoTypings.Proofs.Grammar
import ProtoTypings.Proofs.PropertyName
import ProtoTypings.Typings.Template
import ProtoTypings.Proofs.TypeText
import ProtoTypings.Proofs.Json
import ProtoTypings.Proofs.Template
import ProtoTypings.Proofs.NormalForm
import ProtoTypings.Proofs.MemberNames
import ProtoTypings.Proofs.CamelCase
import ProtoTypings.Proofs.FreeQualifier
import ProtoTypings.Proofs.Fallback
import ProtoTypings.Proofs.MemberLine
