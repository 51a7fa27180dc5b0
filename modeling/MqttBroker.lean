import MqttBroker.Wire.SubscribeBounds
import MqttBroker.Session.QuotaBounds
import MqttBroker.Session.AliasRuns
import MqttBroker.Storage.Restore
import MqttBroker.Broker.Gauge
import MqttBroker.Session.Exclusive
import MqttBroker.Session.Inbound
import MqttBroker.Session.InboundAliases
import MqttBroker.Broker.Wills
import MqttBroker.Broker.Uninterrupted
import MqttBroker.Session.Outbuf
import MqttBroker.Session.Sequence
import MqttBroker.Auth.Ledger
import MqttBroker.Session.Answers
import MqttBroker.Broker.Inheritance
import MqttBroker.Broker.Tenure
import MqttBroker.Wire.Declared
import MqttBroker.Wire.Sizes
import MqttBroker.Topics.Grammar
import MqttBroker.Topics.ShareGroups
import MqttBroker.Topics.Isolation
import MqttBroker.Storage.Pebble
import MqttBroker.Session.Deadline
import MqttBroker.Session.Oldest
import MqttBroker.Storage.Bookkeeping
import MqttBroker.Session.AckTypes
import MqttBroker.Session.Oversize
import MqttBroker.Broker.Fanout
import MqttBroker.Session.Reading
import MqttBroker.Broker.Linked
