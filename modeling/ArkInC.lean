import ArkInC.ForStd.Attempt
import ArkInC.ForStd.Binary64
import ArkInC.ForStd.Decimal
import ArkInC.ForStd.Except
import ArkInC.ForStd.Forest
import ArkInC.ForStd.Linked
import ArkInC.ForStd.List
import ArkInC.ForStd.Reader
import ArkInC.ForStd.Refinement
import ArkInC.ForStd.Retry
import ArkInC.ForStd.Run
import ArkInC.ForStd.Url
import ArkInC.ForStd.Utf
import ArkInC.Native.Api
import ArkInC.Native.CLib
import ArkInC.Native.Core
import ArkInC.Native.Helpers
import ArkInC.Native.Json
import ArkInC.Native.JsonItems
import ArkInC.Native.JsonMinify
import ArkInC.Native.JsonParse
import ArkInC.Native.JsonPrint
import ArkInC.Native.Models
import ArkInC.Native.Transfer
import ArkInC.Spec.Addresses
import ArkInC.Spec.Amounts
import ArkInC.Spec.BrokenTransfer
import ArkInC.Spec.Chunks
import ArkInC.Spec.Decoders
import ArkInC.Spec.Endpoint
import ArkInC.Spec.Environment
import ArkInC.Spec.EnvironmentCorrect
import ArkInC.Spec.FilterPeers
import ArkInC.Spec.FormatCorrect
import ArkInC.Spec.Grammar
import ArkInC.Spec.ItemClients
import ArkInC.Spec.ItemDocument
import ArkInC.Spec.ItemHeap
import ArkInC.Spec.ItemLists
import ArkInC.Spec.ItemTree
import ArkInC.Spec.JsonGrammar
import ArkInC.Spec.JsonText
import ArkInC.Spec.ListEndpoints
import ArkInC.Spec.Lookup
import ArkInC.Spec.MemberOrder
import ArkInC.Spec.MinifyCorrect
import ArkInC.Spec.NumberText
import ArkInC.Spec.ParseStable
import ArkInC.Spec.PrintCorrect
import ArkInC.Spec.PrintParse
import ArkInC.Spec.QueryUrl
import ArkInC.Spec.ReadArray
import ArkInC.Spec.Render
import ArkInC.Spec.Reports
import ArkInC.Spec.Response
import ArkInC.Spec.SeedsCorrect
import ArkInC.Spec.StringText
import ArkInC.Spec.TransferCorrect
import ArkInC.Spec.WireCorrect
