import ImgPredictor.PluginSlot.Names
import ImgPredictor.PluginSlot.Separators
import ImgPredictor.PluginSlot.Escapes
import ImgPredictor.PluginSlot.Termination
import ImgPredictor.Graph.Modes
import ImgPredictor.Graph.InPlace
import ImgPredictor.Graph.Clamp
import ImgPredictor.Graph.MissingBody
import ImgPredictor.Graph.Leak
import ImgPredictor.Graph.Directive
import ImgPredictor.Graph.Files
import ImgPredictor.Graph.Accepts
import ImgPredictor.Graph.Serial
import ImgPredictor.Graph.Configured
import ImgPredictor.Statics.Isolation
import ImgPredictor.Statics.GroupBy
import ImgPredictor.Statics.WindowLaw
import ImgPredictor.Statics.Servers
import ImgPredictor.Statics.Order
import ImgPredictor.Statics.Extract
import ImgPredictor.Agreement
import ImgPredictor.Statics.Schema
import ImgPredictor.Statics.TrailingCommas
import ImgPredictor.Hosts
